import DiagramMarkup.Expr.Error
import DiagramMarkup.Number.Reader
import DiagramMarkup.Text.Bytes
import DiagramMarkup.Text.Split

/-!
# Tokens of expressions

An expression is a sequence of numbers, variables, quoted strings, words, parentheses, commas and
operators, with white space between them. A word such as `lt` is an operator unless a parenthesis
follows, which makes it the name of a function. Positions count bytes.

Texts are read by character. Bytes that need not be text are read one by one.
-/

namespace DiagramMarkup.Expr

/-- Binary operators. -/
inductive Op where
  | and
  | or
  | xor
  | eq
  | ne
  | lt
  | le
  | gt
  | ge
  | add
  | sub
  | mul
  | div
  | floorDiv
  | mod
deriving Repr, DecidableEq

/-- How an operator is written. -/
def Op.text : Op → String
  | .and => "and"
  | .or => "or"
  | .xor => "xor"
  | .eq => "eq"
  | .ne => "ne"
  | .lt => "lt"
  | .le => "le"
  | .gt => "gt"
  | .ge => "ge"
  | .add => "+"
  | .sub => "-"
  | .mul => "*"
  | .div => "/"
  | .floorDiv => "//"
  | .mod => "%"

/-- The operators that are words. -/
def Op.ofWord? : String → Option Op
  | "and" => some .and
  | "or" => some .or
  | "xor" => some .xor
  | "eq" => some .eq
  | "ne" => some .ne
  | "lt" => some .lt
  | "le" => some .le
  | "gt" => some .gt
  | "ge" => some .ge
  | _ => none

/-- A token without its position. -/
inductive Lexeme where
  | number (text : String) (value : Float)
  | var (name : String)
  | string (text : String)
  | symbol (name : String)
  | lparen
  | rparen
  | comma
  | op (op : Op)
deriving Repr

/-- The name of a token's class. -/
def Lexeme.kind : Lexeme → String
  | .number .. => "number"
  | .var _ => "var"
  | .string _ => "string"
  | .symbol _ => "symbol"
  | .lparen => "lparen"
  | .rparen => "rparen"
  | .comma => "comma"
  | .op _ => "op"

/-- What a token says: the number as written, a name, the content of a string. -/
def Lexeme.text : Lexeme → String
  | .number text _ => text
  | .var name => name
  | .string text => text
  | .symbol name => name
  | .lparen => "("
  | .rparen => ")"
  | .comma => ","
  | .op o => o.text

/-- A token and the byte at which it starts. -/
structure Token where
  lexeme : Lexeme
  pos : Nat
deriving Repr

/-- The blanks of ASCII. -/
def isSpace (c : Char) : Bool := c == ' ' || (9 ≤ c.toNat && c.toNat ≤ 13)

/-- What the characters of an expression stand for: for themselves, or for the bytes with their numbers. -/
inductive Coding where
  | text
  | bytes
deriving Repr, DecidableEq

namespace Coding

/-- Blanks between tokens. Two bytes are blank that begin no character of a text. -/
def isBlank : Coding → Char → Bool
  | .text, c => isSpace c
  | .bytes, c => isSpace c || c == '\u0085' || c == '\u00a0'

/-- How many bytes the characters stand for. -/
def length : Coding → List Char → Nat
  | .text, cs => Text.byteLength cs
  | .bytes, cs => cs.length

end Coding

/-- A letter or an underscore. -/
def isWordStart (c : Char) : Bool :=
  c == '_' || ('a' ≤ c && c ≤ 'z') || ('A' ≤ c && c ≤ 'Z')

/-- A letter, an underscore or a digit. -/
def isWordChar (c : Char) : Bool := isWordStart c || Number.isDigit c

theorem isWordChar_of_start {c : Char} (hc : isWordStart c) : isWordChar c := by simp [isWordChar, hc]

theorem forall_isWordChar {c : Char} {name : List Char} (hc : isWordStart c) (hname : ∀ d ∈ name, isWordChar d) :
    ∀ d ∈ c :: name, isWordChar d :=
  List.forall_mem_cons.2 ⟨isWordChar_of_start hc, hname⟩

/-- Does a parenthesis come next? -/
def parenFollows (cs : List Char) (k : Coding := .text) : Bool :=
  match cs.dropWhile k.isBlank with
  | '(' :: _ => true
  | _ => false

/-- Where an exponent may stand: its characters, or none of them. -/
def scanExponent (cs : List Char) : List Char × List Char :=
  match cs with
  | e :: rest =>
    if e == 'e' || e == 'E' then
      let (sign, rest) := match rest with
        | '+' :: r => (['+'], r)
        | '-' :: r => (['-'], r)
        | r => ([], r)
      let ds := rest.takeWhile Number.isDigit
      if ds.isEmpty then ([], cs) else (e :: sign ++ ds, rest.dropWhile Number.isDigit)
    else ([], cs)
  | [] => ([], [])

/-- The characters of a number at the start of the text, and the rest. -/
def spanNumber (cs : List Char) : List Char × List Char :=
  let whole := cs.takeWhile Number.isDigit
  let rest := cs.dropWhile Number.isDigit
  let (frac, rest) := match rest with
    | '.' :: r => ('.' :: r.takeWhile Number.isDigit, r.dropWhile Number.isDigit)
    | r => ([], r)
  let (ex, rest) := scanExponent rest
  (whole ++ frac ++ ex, rest)

/-- A letter, digit or point right behind a number spoils it. -/
def gluesToNumber (c : Char) : Bool := isWordChar c || c == '.'

/-- Read a number. -/
def scanNumber (cs : List Char) : Except Cause (Lexeme × List Char) :=
  let (text, rest) := spanNumber cs
  let tail := rest.takeWhile gluesToNumber
  if tail.isEmpty then
    match Number.readChars text with
    | .ok v => .ok (.number (String.ofList text) v, rest)
    | .error _ => .error (.malformedNumber (String.ofList text))
  else .error (.malformedNumber (String.ofList (text ++ tail)))

/-- Read what follows a dollar sign: a word, or any name in braces. -/
def scanVariable (pos : Nat) (cs : List Char) : Except Cause (Lexeme × List Char) :=
  match cs with
  | '{' :: rest =>
    match Text.breakOn ['}'] rest with
    | none => .error (.openVariable pos)
    | some ([], _) => .error (.emptyVariable pos)
    | some (name, rest) => .ok (.var (String.ofList name), rest)
  | _ =>
    let name := cs.takeWhile isWordChar
    if name.isEmpty then .error (.missingVariable pos)
    else .ok (.var (String.ofList name), cs.dropWhile isWordChar)

/-- Read a string up to its closing quote. A backslash takes the next character as it is. -/
def stringBody (quote : Char) : List Char → Option (List Char × List Char)
  | [] => none
  | '\\' :: c :: rest => (stringBody quote rest).map fun (body, r) => (c :: body, r)
  | c :: rest =>
    if c == quote then some ([], rest)
    else (stringBody quote rest).map fun (body, r) => (c :: body, r)

/-- Read one token from a non-empty text that does not start with a blank. -/
def scanOne (pos : Nat) (c : Char) (cs : List Char) (k : Coding := .text) : Except Cause (Lexeme × List Char) :=
  let pointed := match cs with
    | d :: _ => c == '.' && Number.isDigit d
    | [] => false
  if Number.isDigit c || pointed then scanNumber (c :: cs)
  else if c == '$' then scanVariable pos cs
  else if c == '"' || c == '\'' then
    match stringBody c cs with
    | none => .error (.openString pos)
    | some (body, rest) => .ok (.string (String.ofList body), rest)
  else if isWordStart c then
    let word := String.ofList ((c :: cs).takeWhile isWordChar)
    let rest := (c :: cs).dropWhile isWordChar
    match Op.ofWord? word with
    | some o => .ok (if parenFollows rest k then .symbol word else .op o, rest)
    | none => .ok (.symbol word, rest)
  else
    match c, cs with
    | '(', _ => .ok (.lparen, cs)
    | ')', _ => .ok (.rparen, cs)
    | ',', _ => .ok (.comma, cs)
    | '/', '/' :: rest => .ok (.op .floorDiv, rest)
    | '+', _ => .ok (.op .add, cs)
    | '-', _ => .ok (.op .sub, cs)
    | '*', _ => .ok (.op .mul, cs)
    | '/', _ => .ok (.op .div, cs)
    | '%', _ => .ok (.op .mod, cs)
    | _, _ => .error (.unexpectedChar c pos)

/-- Read all tokens; each step takes at least one character off the text. -/
def scanAll (fuel pos : Nat) (cs : List Char) (k : Coding := .text) : Except Cause (List Token) :=
  match fuel, cs with
  | 0, _ => .ok []
  | _ + 1, [] => .ok []
  | fuel + 1, c :: cs =>
    if k.isBlank c then scanAll fuel (pos + 1) cs k
    else
      match scanOne pos c cs k with
      | .error e => .error e
      | .ok (lexeme, rest) =>
        let next := pos + (k.length (c :: cs) - k.length rest)
        (scanAll fuel next rest k).map (⟨lexeme, pos⟩ :: ·)

/-- The tokens of characters. -/
def tokenizeChars (cs : List Char) (k : Coding := .text) : Except Cause (List Token) := scanAll cs.length 0 cs k

/-- The tokens of a text. -/
def tokenize (s : String) : Except Cause (List Token) := tokenizeChars s.toList

/-- The tokens of bytes, whether or not they are the form of a text. What tokens say is bytes as well. -/
def tokenizeBytes (bs : List UInt8) : Except Cause (List Token) := tokenizeChars (Text.spell bs) .bytes

end DiagramMarkup.Expr
