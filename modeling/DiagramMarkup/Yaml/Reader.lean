import DiagramMarkup.Text.Quoted
import DiagramMarkup.Text.Split
import DiagramMarkup.Yaml.Node

/-!
# Settings notation: reading

Mappings are laid out by indentation, one entry a line, or stand between braces. Scalars are unquoted, quoted, or
blocks of lines; an unquoted or quoted one may go on over several lines, whose breaks are then folded. Lists,
anchors and tags do not occur in settings, and a document that has them is not read.
-/

namespace DiagramMarkup.Yaml

/-- The lines of a text that are still to be read. -/
abbrev Lines := List (List Char)

/-- A blank inside a line. -/
def isGap (c : Char) : Bool := c == ' ' || c == '\t'

/-- A blank or a line break. -/
def isSpace (c : Char) : Bool := isGap c || c == '\n'

/-- Does a blank or the end follow? -/
def gapFollows : List Char → Bool
  | [] => true
  | c :: _ => isSpace c

/-- Is there nothing but blanks and a comment? -/
def isVoid (cs : List Char) : Bool :=
  match cs.dropWhile isGap with
  | [] => true
  | c :: _ => c == '#'

/-- The number of spaces in front of a line. -/
def indent (l : List Char) : Nat := (l.takeWhile (· == ' ')).length

/-- Is there nothing on the line but spaces and a comment? -/
def isVoidLine (l : List Char) : Bool :=
  match l.drop (indent l) with
  | [] => true
  | c :: _ => c == '#'

/-- Text without the blanks at its end. -/
def trimGaps (cs : List Char) : List Char := (cs.reverse.dropWhile isGap).reverse

/-- Line breaks fold: one becomes a space, and of several all but one stay. -/
def foldedBreaks : Nat → List Char
  | 0 => []
  | 1 => [' ']
  | n + 2 => List.replicate (n + 1) '\n'

/-- A run of blanks as it counts inside a scalar: with line breaks these alone, folded. -/
def foldedGap (ws : List Char) : List Char :=
  match ws.count '\n' with
  | 0 => ws
  | n => foldedBreaks n

/-! ## Quoted scalars -/

/-- The characters that stand behind a backslash, with their meaning. -/
def escapes : List (Char × Nat) :=
  [('0', 0), ('a', 7), ('b', 8), ('t', 9), ('\t', 9), ('n', 10), ('v', 11), ('f', 12), ('r', 13), ('e', 27),
    (' ', 32), ('"', 34), ('\'', 39), ('/', 47), ('\\', 92), ('N', 0x85), ('_', 0xA0), ('L', 0x2028), ('P', 0x2029)]

/-- The character that an escape stands for, given what follows the backslash. -/
def escape? : List Char → Option (Char × List Char)
  | [] => none
  | c :: cs =>
    let code := fun (n : Nat) =>
      let ds := cs.take n
      let k := Number.natOfDigits 16 ds
      if ds.length == n && ds.all Number.isHexDigit && k.isValidChar then some (Char.ofNat k, cs.drop n) else none
    match c with
    | 'x' => code 2
    | 'u' => code 4
    | 'U' => code 8
    | _ => (escapes.lookup c).map fun k => (Char.ofNat k, cs)

/-- The text up to the closing quote, and what follows it. -/
def quotedFrom (quote : Char) : (fuel : Nat) → List Char → Option (List Char × List Char)
  | 0, _ => none
  | fuel + 1, cs =>
    let more := fun (front rest : List Char) => do
      let (t, r) ← quotedFrom quote fuel rest
      return (front ++ t, r)
    match cs with
    | [] => none
    | c :: r =>
      if c == quote then
        if quote == '\'' && r.head? == some '\'' then more ['\''] (r.drop 1) else some ([], r)
      else if c == '\\' && quote == '"' then
        match r with
        | '\n' :: r =>
          let ws := r.takeWhile isSpace
          more (List.replicate (ws.count '\n') '\n') (r.dropWhile isSpace)
        | r =>
          match escape? r with
          | some (d, r) => more [d] r
          | none => none
      else if isSpace c then more (foldedGap (cs.takeWhile isSpace)) (cs.dropWhile isSpace)
      else more [c] r

/-- A quoted scalar at the start of a text, and what follows it. -/
def quoted? : List Char → Option (List Char × List Char)
  | [] => none
  | c :: cs => if c == '"' || c == '\'' then quotedFrom c (cs.length + 1) cs else none

/-! ## Unquoted scalars -/

/-- The characters that no unquoted scalar starts with. -/
def indicators : List Char := ",[]\x7b\x7d#&*!|>'\"%@`".toList

/-- Can an unquoted scalar start here? -/
def startsBare (inFlow : Bool) : List Char → Bool
  | [] => false
  | c :: cs =>
    if c == '-' then !gapFollows cs
    else if c == '?' || c == ':' then !inFlow && !gapFollows cs
    else !isSpace c && !indicators.contains c

/-- The part of an unquoted scalar that lies on one line, with whether it may go on: not behind a comment. A colon
that ends a key has no place in it. -/
def piece (before : Char) : List Char → Option (List Char × Bool)
  | [] => some ([], true)
  | c :: cs =>
    if c == ':' && gapFollows cs then none
    else if c == '#' && isGap before then some ([], false)
    else (piece c cs).map fun (t, goesOn) => (c :: t, goesOn)

/-- The further lines of an unquoted scalar; `gaps` empty lines stand before them. -/
def furtherPieces (least : Nat) : (gaps : Nat) → Lines → Option (List Char × Lines)
  | _, [] => some ([], [])
  | gaps, l :: rest =>
    match l.dropWhile isGap with
    | [] => furtherPieces least (gaps + 1) rest
    | c :: cs =>
      if indent l < least || c == '#' then some ([], l :: rest)
      else do
        let (t, goesOn) ← piece ' ' (c :: cs)
        let here := foldedBreaks (gaps + 1) ++ trimGaps t
        if goesOn then
          let (more, rest) ← furtherPieces least 0 rest
          return (here ++ more, rest)
        else return (here, rest)

/-- An unquoted scalar that starts on a line and goes on over lines indented by at least `least`. -/
def bareLines (least : Nat) (cs : List Char) (rest : Lines) : Option (List Char × Lines) := do
  let (t, goesOn) ← piece 'x' cs
  if goesOn then
    let (more, rest) ← furtherPieces least 0 rest
    return (trimGaps t ++ more, rest)
  else return (trimGaps t, rest)

/-! ## Blocks of lines -/

/-- What becomes of the line breaks at the end of a block. -/
inductive Chomp where
  | strip
  | clip
  | keep
deriving DecidableEq

/-- The head of a block: how its end is treated, and its indentation if given. -/
structure BlockHead where
  chomp : Chomp := .clip
  indent : Option Nat := none

/-- Read the head of a block behind its mark. -/
def BlockHead.read? : List Char → Option BlockHead
  | cs =>
    let step := fun (h : BlockHead) (c : Char) =>
      if c == '+' then { h with chomp := .keep }
      else if c == '-' then { h with chomp := .strip }
      else { h with indent := some (Number.digitValue c) }
    let marks := cs.takeWhile fun c => c == '+' || c == '-' || ('1' ≤ c && c ≤ '9')
    let signs := marks.filter fun c => c == '+' || c == '-'
    if isVoid (cs.dropWhile marks.contains) && signs.length ≤ 1 && marks.length ≤ signs.length + 1 then
      some (marks.foldl step {})
    else none

/-- Are there only spaces? -/
def onlySpaces (l : List Char) : Bool := l.all (· == ' ')

/-- The indentation of a block's lines. -/
def blockIndent (h : BlockHead) (least : Nat) (ls : Lines) : Nat :=
  match h.indent with
  | some n => least - 1 + n
  | none =>
    let blank := (ls.takeWhile onlySpaces).map List.length
    let first := ((ls.dropWhile onlySpaces).head?.map indent).getD 0
    blank.foldl max (max first (max least 1))

/-- The lines of a block one behind the other. Folded, a break between two lines that start with no blank becomes
a space. -/
def joinLines (folded : Bool) : Lines → List Char
  | [] => []
  | [l] => l
  | l :: rest =>
    let blankStart := fun (l : List Char) => (l.head?.map isGap).getD false
    let empties := rest.takeWhile List.isEmpty
    let next := (rest.dropWhile List.isEmpty).headD []
    let glue :=
      if folded && !l.isEmpty && !blankStart l && !blankStart next then
        if empties.isEmpty then [' '] else []
      else ['\n']
    l ++ glue ++ joinLines folded rest

/-- The text of a block, and the lines behind it. -/
def block (folded : Bool) (h : BlockHead) (least : Nat) (ls : Lines) : List Char × Lines :=
  let n := blockIndent h least ls
  let inside := fun (l : List Char) => onlySpaces l || n ≤ indent l
  let lines := (ls.takeWhile inside).map (·.drop n)
  let body := (lines.reverse.dropWhile List.isEmpty).reverse
  let empties := lines.length - body.length
  let ending := match h.chomp with
    | .strip => 0
    | .clip => if body.isEmpty then 0 else 1
    | .keep => if body.isEmpty then empties else empties + 1
  (joinLines folded body ++ List.replicate ending '\n', ls.dropWhile inside)

/-! ## Mappings between braces -/

/-- Skip blanks, line breaks and comments. -/
def skipFlow : (fuel : Nat) → List Char → List Char
  | 0, cs => cs
  | fuel + 1, cs =>
    match cs.dropWhile isSpace with
    | '#' :: r => skipFlow fuel (r.dropWhile (· != '\n'))
    | r => r

/-- An unquoted scalar between braces, not yet folded, and what follows it. -/
def flowPiece (before : Char) : List Char → List Char × List Char
  | [] => ([], [])
  | c :: cs =>
    if (c == ':' && gapFollows cs) || (c == '#' && isSpace before) || ",?[]\x7b\x7d".toList.contains c then ([], c :: cs)
    else
      let (t, r) := flowPiece c cs
      (c :: t, r)

/-- Fold the line breaks of an unquoted scalar. -/
def foldText : (fuel : Nat) → List Char → List Char
  | 0, _ => []
  | _, [] => []
  | fuel + 1, c :: cs =>
    if isSpace c then foldedGap ((c :: cs).takeWhile isSpace) ++ foldText fuel ((c :: cs).dropWhile isSpace)
    else c :: foldText fuel cs

/-- A scalar between braces, and what follows it. -/
def flowScalar? (cs : List Char) : Option (Node × List Char) :=
  match quoted? cs with
  | some (t, r) => some (.text (String.ofList t), r)
  | none =>
    if startsBare true cs then
      let (t, r) := flowPiece 'x' cs
      let t := (t.reverse.dropWhile isSpace).reverse
      some (.bare (String.ofList (foldText t.length t)), r)
    else none

/-- The entries up to the closing brace, and what follows it. -/
def flowEntries : (fuel : Nat) → List Char → Option (List (String × Node) × List Char)
  | 0, _ => none
  | fuel + 1, cs =>
    let skip := skipFlow cs.length
    match skip cs with
    | '}' :: r => some ([], r)
    | cs => do
      let (k, r) ← flowScalar? cs
      let key ← k.string?
      let (v, r) ← match skip r with
        | ':' :: r =>
          match skip r with
          | '{' :: r => (flowEntries fuel r).map fun (es, r) => (Node.map es, r)
          | ',' :: r => some (.bare "", ',' :: r)
          | '}' :: r => some (.bare "", '}' :: r)
          | r => flowScalar? r
        | r => some (.bare "", r)
      match skip r with
      | '}' :: r => return ([(key, v)], r)
      | ',' :: r =>
        let (es, r) ← flowEntries fuel r
        return ((key, v) :: es, r)
      | _ => none

/-! ## Layout -/

/-- Lines as one text. -/
def joined (ls : Lines) : List Char := ['\n'].intercalate ls

/-- The lines behind a scalar or a brace; nothing but a comment may stand on its own line. -/
def linesBehind (cs : List Char) : Option Lines :=
  match Text.splitWhere (· == '\n') cs with
  | [] => some []
  | l :: rest => if isVoid l then some rest else none

/-- A value that starts inside a line. What belongs to it is indented by at least `least`. -/
def inlineValue (least : Nat) (cs : List Char) (rest : Lines) : Option (Node × Lines) :=
  let all := joined (cs :: rest)
  match cs with
  | '|' :: h => (BlockHead.read? h).map fun h =>
      let (t, rest) := block false h least rest
      (.text (String.ofList t), rest)
  | '>' :: h => (BlockHead.read? h).map fun h =>
      let (t, rest) := block true h least rest
      (.text (String.ofList t), rest)
  | '{' :: _ => do
    let (es, r) ← flowEntries all.length (all.drop 1)
    return (.map es, ← linesBehind r)
  | cs =>
    match quoted? all with
    | some (t, r) => (linesBehind r).map fun ls => (.text (String.ofList t), ls)
    | none =>
      if startsBare false cs then
        (bareLines least cs rest).map fun (t, ls) => (.bare (String.ofList t), ls)
      else none

/-- A key in front of a colon, and what follows the colon. -/
def bareKey (before : Char) : List Char → Option (List Char × List Char)
  | [] => none
  | c :: cs =>
    if c == ':' && gapFollows cs then some ([], cs)
    else if c == '#' && isGap before then none
    else (bareKey c cs).map fun (k, r) => (c :: k, r)

/-- The key that starts a line, and what follows its colon. -/
def key? (cs : List Char) : Option (String × List Char) :=
  match quoted? cs with
  | some (k, r) =>
    match r.dropWhile isGap with
    | ':' :: r => if gapFollows r then some (String.ofList k, r) else none
    | _ => none
  | none =>
    if startsBare false cs then
      (bareKey 'x' cs).map fun (k, r) => (String.ofList (trimGaps k), r)
    else none

mutual

/-- The node on the lines that are indented by at least `least`; nothing if the next line is not. -/
def nodeAt : (fuel : Nat) → (least : Nat) → Lines → Option (Node × Lines)
  | 0, _, _ => none
  | fuel + 1, least, ls =>
    match ls.dropWhile isVoidLine with
    | [] => some (.bare "", [])
    | l :: rest =>
      let n := indent l
      if n < least then some (.bare "", l :: rest)
      else if (key? (l.drop n)).isSome then
        (entriesAt fuel n (l :: rest)).map fun (es, ls) => (.map es, ls)
      else inlineValue least (l.drop n) rest

/-- The entries on the lines that are indented by `n`. -/
def entriesAt : (fuel : Nat) → (n : Nat) → Lines → Option (List (String × Node) × Lines)
  | 0, _, _ => none
  | fuel + 1, n, ls =>
    match ls.dropWhile isVoidLine with
    | [] => some ([], [])
    | l :: rest =>
      if indent l < n then some ([], l :: rest)
      else if n < indent l then none
      else do
        let (k, r) ← key? (l.drop n)
        let (v, ls) ← if isVoid r then nodeAt fuel (n + 1) rest else inlineValue (n + 1) (r.dropWhile isGap) rest
        let (es, ls) ← entriesAt fuel n ls
        return ((k, v) :: es, ls)

end

/-! ## Documents -/

/-- One kind of line break only. -/
def unifyBreaks : List Char → List Char
  | [] => []
  | '\r' :: '\n' :: cs => '\n' :: unifyBreaks cs
  | c :: cs => (if c == '\r' || c == '\u0085' then '\n' else c) :: unifyBreaks cs

/-- May the character occur in a document? -/
def isAllowed (c : Char) : Bool :=
  let n := c.toNat
  n == 9 || n == 10 || (0x20 ≤ n && n ≤ 0x7E) || (0xA0 ≤ n && n ≤ 0xFFFD && n != 0xFEFF) || 0x10000 ≤ n

/-- Is the line a mark of three equal characters, with a blank or nothing behind it? -/
def isMark (m : Char) (l : List Char) : Bool := l.take 3 == [m, m, m] && gapFollows (l.drop 3)

/-- The node of a document on its lines, all of which belong to it. -/
def nodeOf (first : List Char) (rest : Lines) : Option Node := do
  let body := rest.takeWhile fun l => !isMark '-' l && !isMark '.' l
  let (n, ls) ← if isVoid first then nodeAt (2 * body.length + 2) 0 body
    else inlineValue 0 (first.dropWhile isGap) body
  if ls.all isVoidLine then some n else none

/-- The lines of a text; a break at its end starts no further line. -/
def linesOf (cs : List Char) : Lines :=
  let ls := Text.splitWhere (· == '\n') cs
  if ls.getLast? == some [] then ls.dropLast else ls

/-- The first document of a text. There is none if nothing but comments is found. -/
def read (s : String) : Option Node :=
  let cs := unifyBreaks (match s.toList with
    | '\uFEFF' :: cs => cs
    | cs => cs)
  if !cs.all isAllowed then none
  else
    match (linesOf cs).dropWhile fun l => isVoidLine l || isMark '.' l with
    | [] => none
    | l :: rest => if isMark '-' l then nodeOf (l.drop 3) rest else nodeOf [] (l :: rest)

end DiagramMarkup.Yaml
