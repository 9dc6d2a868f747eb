import DiagramMarkup.Text.Quoted
import DiagramMarkup.Text.Split
import DiagramMarkup.Yaml.Node

/-!
# Settings notation: writing

Entries are written one a line, what is nested four columns deeper. Text stays unquoted where it is read back as the
same text, else it is quoted, and text of several lines becomes a block.
-/

namespace DiagramMarkup.Yaml

/-- The columns of one level. -/
def columns : Nat := 4

/-- Is the character written as it is? -/
def isWritten (c : Char) : Bool :=
  let n := c.toNat
  n == 10 || (0x20 ≤ n && n ≤ 0x7E) || (0xA0 ≤ n && n ≤ 0xFFFD && n != 0xFEFF)

/-- A blank or the end. -/
def endsWord : List Char → Bool
  | [] => true
  | c :: _ => c == ' ' || c == '\t'

/-- Does a colon end a key, or a hash start a comment? -/
def hasMark (before : Char) : List Char → Bool
  | [] => false
  | c :: cs => (c == ':' && endsWord cs) || (c == '#' && (before == ' ' || before == '\t')) || hasMark c cs

/-- Would the first characters be read as something else than text? -/
def startsMarked : List Char → Bool
  | [] => false
  | c :: cs =>
    "#,[]\x7b\x7d&*!|>'\"%@`".toList.contains c || ((c == '?' || c == '-' || c == ':') && endsWord cs) ||
      ['-', '-', '-'].isPrefixOf (c :: cs) || ['.', '.', '.'].isPrefixOf (c :: cs)

/-- Is a space the first or the last character? -/
def spaceAtEnd (cs : List Char) : Bool := cs.head? == some ' ' || cs.getLast? == some ' '

/-- Can the text stand without quotes on one line? -/
def fitsBare (cs : List Char) : Bool :=
  !startsMarked cs && !hasMark 'x' cs && !spaceAtEnd cs && cs.all fun c => isWritten c && c != '\n'

/-- Words that other readers take for truth values. -/
def oldTruths : List String :=
  ["y", "Y", "yes", "Yes", "YES", "on", "On", "ON", "n", "N", "no", "No", "NO", "off", "Off", "OFF"]

/-- Is this part of a number to the base sixty? -/
def isSixtieth : List Char → Bool
  | [a] => Number.isDigit a
  | [a, b] => '0' ≤ a && a ≤ '5' && Number.isDigit b
  | _ => false

/-- Is this a number to the base sixty, as other readers have it? -/
def isBaseSixty (cs : List Char) : Bool :=
  let cs := match cs with
    | '+' :: r | '-' :: r => r
    | r => r
  let digitLike := fun c => Number.isDigit c || c == '_'
  match Text.splitWhere (· == ':') (cs.takeWhile (· != '.')) with
  | whole :: p :: ps =>
    (whole.head?.map Number.isDigit).getD false && whole.all digitLike && (p :: ps).all isSixtieth &&
      (cs.dropWhile (· != '.')).tail.all digitLike
  | _ => false

/-- Would the text without quotes stand for text? -/
def meansText (s : String) : Bool :=
  match resolve s with
  | .text => !oldTruths.contains s && !isBaseSixty s.toList
  | _ => false

/-- Text between single quotes. -/
def singleQuoted (cs : List Char) : List Char :=
  ['\''] ++ cs.flatMap (fun c => if c == '\'' then ['\'', '\''] else [c]) ++ ['\'']

/-- The letters of escapes. -/
def escapeLetters : List (Nat × Char) :=
  [(0, '0'), (7, 'a'), (8, 'b'), (9, 't'), (10, 'n'), (11, 'v'), (12, 'f'), (13, 'r'), (27, 'e'), (34, '"'),
    (92, '\\'), (0x85, 'N')]

/-- One character between double quotes. -/
def doubleQuotedChar (c : Char) : List Char :=
  let n := c.toNat
  match escapeLetters.lookup n with
  | some e => ['\\', e]
  | none =>
    if isWritten c then [c]
    else
      let hex := fun (width : Nat) => (Text.hexDigits width n).map Char.toUpper
      if n ≤ 0xFF then ['\\', 'x'] ++ hex 2
      else if n ≤ 0xFFFF then ['\\', 'u'] ++ hex 4
      else ['\\', 'U'] ++ hex 8

/-- Text between double quotes. -/
def doubleQuoted (cs : List Char) : List Char := ['"'] ++ cs.flatMap doubleQuotedChar ++ ['"']

/-- Can text of several lines be written as a block? No line but an inner one may end with a space. -/
def fitsBlock (cs : List Char) : Bool :=
  !cs.isEmpty && cs.getLast? != some ' ' && !Text.occurs [' ', '\n'] cs && cs.all fun c => isWritten c || c == '\t'

/-- Text of several lines as a block below its key. -/
def blockText (level : Nat) (cs : List Char) : List Char :=
  let width := if cs.head? == some ' ' || cs.head? == some '\n' then Nat.toDigits 10 columns else []
  let chomp := match cs.reverse with
    | '\n' :: '\n' :: _ | ['\n'] => ['+']
    | '\n' :: _ => []
    | _ => ['-']
  let body := if cs.getLast? == some '\n' then cs.dropLast else cs
  let line := fun (l : List Char) =>
    '\n' :: (if l.isEmpty then [] else List.replicate (columns * (level + 1)) ' ' ++ l)
  ['|'] ++ width ++ chomp ++ (Text.splitWhere (· == '\n') body).flatMap line

/-- Text as a value below a key of the given level. -/
def writeText (level : Nat) (s : String) : List Char :=
  let cs := s.toList
  if cs.contains '\n' then if fitsBlock cs then blockText level cs else doubleQuoted cs
  else if !meansText s then doubleQuoted cs
  else if fitsBare cs then cs
  else if cs.all isWritten then singleQuoted cs
  else doubleQuoted cs

mutual

/-- A value behind its key. -/
def writeValue (level : Nat) : Node → List Char
  | .bare w => ' ' :: w.toList ++ ['\n']
  | .text s => ' ' :: writeText level s ++ ['\n']
  | .map [] => " \x7b\x7d\n".toList
  | .map (e :: es) => '\n' :: writeEntries (level + 1) (e :: es)

/-- Entries, one a line. -/
def writeEntries (level : Nat) : List (String × Node) → List Char
  | [] => []
  | (k, v) :: es =>
    List.replicate (columns * level) ' ' ++ writeText level k ++ [':'] ++ writeValue level v ++ writeEntries level es

end

/-- The document with these entries. -/
def write (entries : List (String × Node)) : String := String.ofList (writeEntries 0 entries)

end DiagramMarkup.Yaml
