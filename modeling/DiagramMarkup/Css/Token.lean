import DiagramMarkup.Number.Reader

/-!
# Tokens of a style sheet

The lexical grammar of style sheets: identifiers with escapes, numbers with units, strings, addresses, comments
and punctuation. Every character belongs to exactly one token.

This stands for the lexer of the `parse` package, which documents that it follows the CSS Syntax Module Level 3:

1. The classes of tokens are those of the module, with its older tokens for ranges of code points, matches and columns.
   The name of a property that starts with two hyphens is a token, too.
2. Tokens keep the text they are written with, quotes and escapes included; nothing is decoded.
3. Identifiers, names and escapes, numbers with signs, points, exponents and units, and comments reach as far as the
   diagrams of the module take them.
4. A string is ended by its quote or by the input, and spoiled by a line end; an address may be quoted or not, and what
   is left of a spoiled one belongs to it up to the closing parenthesis.
5. A character that begins no other token is a token of its own.
-/

namespace DiagramMarkup.Css

/-- The classes of tokens that matter for the grammar. -/
inductive TokenKind where
  | ident
  | function
  | atKeyword
  | hash
  | string
  | badString
  | url
  | badUrl
  | delim
  | number
  | percentage
  | dimension
  | unicodeRange
  | matchOp
  | column
  | blank
  | cdo
  | cdc
  | colon
  | semicolon
  | comma
  | leftBracket
  | rightBracket
  | leftParen
  | rightParen
  | leftBrace
  | rightBrace
  | comment
  | customName
  | customValue
deriving Repr, DecidableEq

/-- A token with its characters. -/
structure Token where
  kind : TokenKind
  chars : List Char
deriving Repr, DecidableEq

/-- The text of a token. -/
def Token.text (t : Token) : String := String.ofList t.chars

/-- Characters taken from the input, and the rest of the input. -/
abbrev Span := List Char × List Char

/-- White space of style sheets. -/
def isBlank (c : Char) : Bool := c == ' ' || c == '\t' || c == '\n' || c == '\r' || c == '\x0c'

/-- Ends of lines. -/
def isNewline (c : Char) : Bool := c == '\n' || c == '\r' || c == '\x0c'

/-- What an identifier may start with. -/
def isNameStart (c : Char) : Bool :=
  ('a' ≤ c && c ≤ 'z') || ('A' ≤ c && c ≤ 'Z') || c == '_' || 0x80 ≤ c.toNat

/-- What an identifier may hold. -/
def isNameChar (c : Char) : Bool := isNameStart c || Number.isDigit c || c == '-'

/-- An escape: a backslash with up to six hexadecimal digits and a blank, or with any other character but
a line end. -/
def escape? : List Char → Option Span
  | '\\' :: c :: cs =>
    if isNewline c then none
    else if Number.isHexDigit c then
      let more := (cs.take 5).takeWhile Number.isHexDigit
      match cs.drop more.length with
      | b :: rest => if isBlank b then some ('\\' :: c :: more ++ [b], rest)
        else some ('\\' :: c :: more, b :: rest)
      | [] => some ('\\' :: c :: more, [])
    else some (['\\', c], cs)
  | _ => none

/-- Characters and escapes of an identifier. -/
def nameTail : Nat → List Char → Span
  | 0, cs => ([], cs)
  | _, [] => ([], [])
  | fuel + 1, c :: cs =>
    if isNameChar c then
      let (more, rest) := nameTail fuel cs
      (c :: more, rest)
    else
      match escape? (c :: cs) with
      | some (e, rest) =>
        let (more, rest) := nameTail fuel rest
        (e ++ more, rest)
      | none => ([], c :: cs)

/-- The first character or escape of an identifier. -/
def nameHead? (isHead : Char → Bool) : List Char → Option Span
  | [] => none
  | c :: cs => if isHead c then some ([c], cs) else escape? (c :: cs)

/-- A name whose first character satisfies `isHead`. -/
def name? (isHead : Char → Bool) (cs : List Char) : Option Span := do
  let (head, rest) ← nameHead? isHead cs
  let (more, rest) := nameTail rest.length rest
  return (head ++ more, rest)

/-- An identifier, which may start with a hyphen. -/
def ident? : List Char → Option Span
  | '-' :: cs => (name? isNameStart cs).map fun (n, rest) => ('-' :: n, rest)
  | cs => name? isNameStart cs

/-- Digits. -/
def digits (cs : List Char) : Span := (cs.takeWhile Number.isDigit, cs.dropWhile Number.isDigit)

/-- A sign, if there is one. -/
def sign : List Char → Span
  | '+' :: cs => (['+'], cs)
  | '-' :: cs => (['-'], cs)
  | cs => ([], cs)

/-- An exponent, if there is one. -/
def exponent (cs : List Char) : Span :=
  match cs with
  | e :: rest =>
    if e == 'e' || e == 'E' then
      let (s, rest) := sign rest
      let (ds, rest) := digits rest
      if ds.isEmpty then ([], cs) else (e :: s ++ ds, rest)
    else ([], cs)
  | [] => ([], [])

/-- A number. A point without digits behind it belongs to what follows. -/
def number? (cs : List Char) : Option Span :=
  let (s, rest) := sign cs
  let (whole, rest) := digits rest
  let withExponent := fun (m : List Char) (rest : List Char) =>
    let (ex, rest) := exponent rest
    some (s ++ m ++ ex, rest)
  match rest with
  | '.' :: tail =>
    let (frac, tail) := digits tail
    if !frac.isEmpty then withExponent (whole ++ '.' :: frac) tail
    else if whole.isEmpty then none
    else some (s ++ whole, rest)
  | _ => if whole.isEmpty then none else withExponent whole rest

/-- A number with its percent sign or unit. -/
def numeric? (cs : List Char) : Option (Token × List Char) := do
  let (n, rest) ← number? cs
  match rest with
  | '%' :: rest => return (⟨.percentage, n ++ ['%']⟩, rest)
  | _ =>
    match ident? rest with
    | some (unit, rest) => return (⟨.dimension, n ++ unit⟩, rest)
    | none => return (⟨.number, n⟩, rest)

/-- A string behind its opening quote; a line end spoils it, the end of the input closes it. -/
def stringTail (quote : Char) : Nat → List Char → Bool × Span
  | 0, cs => (true, [], cs)
  | _, [] => (true, [], [])
  | fuel + 1, c :: cs =>
    if isNewline c then (false, [c], cs)
    else if c == quote then (true, [c], cs)
    else
      let (taken, rest) := if c == '\\' then
        match escape? (c :: cs) with
        | some span => span
        | none =>
          match cs with
          | '\r' :: '\n' :: rest => ([c, '\r', '\n'], rest)
          | d :: rest => if isNewline d then ([c, d], rest) else ([c], cs)
          | [] => ([c], [])
        else ([c], cs)
      let (good, more, rest) := stringTail quote fuel rest
      (good, taken ++ more, rest)

/-- A string. -/
def stringToken (quote : Char) (cs : List Char) : Bool × Span :=
  let (good, body, rest) := stringTail quote (cs.length + 1) cs
  (good, quote :: body, rest)

/-- An address without quotes; tells whether it ended properly. -/
def bareUrl : Nat → List Char → Bool × Span
  | 0, cs => (true, [], cs)
  | _, [] => (true, [], [])
  | fuel + 1, c :: cs =>
    if c == ')' then (true, [], c :: cs)
    else if c == '"' || c == '\'' || c == '(' || c == '\\' || c.toNat ≤ 0x20 || c == '\x7f' then
      match escape? (c :: cs) with
      | some (e, rest) =>
        let (good, more, rest) := bareUrl fuel rest
        (good, e ++ more, rest)
      | none => (false, [], c :: cs)
    else
      let (good, more, rest) := bareUrl fuel cs
      (good, c :: more, rest)

/-- What is left of a spoiled address. -/
def badUrlTail : Nat → List Char → Span
  | 0, cs => ([], cs)
  | _, [] => ([], [])
  | fuel + 1, c :: cs =>
    if c == ')' then ([c], cs)
    else
      let (taken, rest) := (escape? (c :: cs)).getD ([c], cs)
      let (more, rest) := badUrlTail fuel rest
      (taken ++ more, rest)

/-- Blanks. -/
def blanks (cs : List Char) : Span := (cs.takeWhile isBlank, cs.dropWhile isBlank)

/-- An address, behind `head`, which opens it. -/
def urlToken (head cs : List Char) : Token × List Char :=
  let (b, rest) := blanks cs
  let bad := fun (taken rest : List Char) =>
    let (more, rest) := badUrlTail (rest.length + 1) rest
    ((⟨.badUrl, head ++ b ++ taken ++ more⟩, rest) : Token × List Char)
  let close := fun (taken rest : List Char) =>
    let (b2, rest) := blanks rest
    match rest with
    | ')' :: rest => ((⟨.url, head ++ b ++ taken ++ b2 ++ [')']⟩, rest) : Token × List Char)
    | [] => (⟨.url, head ++ b ++ taken ++ b2⟩, [])
    | rest => bad (taken ++ b2) rest
  let bare := fun (cs : List Char) =>
    let (good, taken, rest) := bareUrl (cs.length + 1) cs
    if good || (rest.head?.map isBlank).getD false then close taken rest else bad taken rest
  match rest with
  | q :: tail =>
    if q == '"' || q == '\'' then
      let (good, taken, rest) := stringToken q tail
      if good then close taken rest else bad taken rest
    else bare rest
  | [] => bare []

/-- An identifier, a function or an address. -/
def identlike? (cs : List Char) : Option (Token × List Char) := do
  let (n, rest) ← ident? cs
  match rest with
  | '(' :: rest =>
    let plain := (n.filter (· != '\\')).map Number.lowerAscii
    if plain == ['u', 'r', 'l'] then return urlToken (n ++ ['(']) rest
    else return (⟨.function, n ++ ['(']⟩, rest)
  | _ => return (⟨.ident, n⟩, rest)

/-- A range of code points such as `U+26` or `u+0-7F`. -/
def unicodeRange? : List Char → Option (Token × List Char)
  | u :: '+' :: cs =>
    let hs := cs.takeWhile Number.isHexDigit
    let rest := cs.dropWhile Number.isHexDigit
    match rest with
    | '-' :: tail =>
      let ts := tail.takeWhile Number.isHexDigit
      if hs.isEmpty || 6 < hs.length || ts.isEmpty || 6 < ts.length then none
      else some (⟨.unicodeRange, u :: '+' :: hs ++ '-' :: ts⟩, tail.dropWhile Number.isHexDigit)
    | _ =>
      let qs := rest.takeWhile (· == '?')
      let k := hs.length + qs.length
      if k == 0 || 6 < k then none
      else some (⟨.unicodeRange, u :: '+' :: hs ++ qs⟩, rest.dropWhile (· == '?'))
  | _ => none

/-- A comment behind its opening; the end of the input closes it. -/
def commentTail : List Char → Span
  | [] => ([], [])
  | '*' :: '/' :: cs => (['*', '/'], cs)
  | c :: cs =>
    let (more, rest) := commentTail cs
    (c :: more, rest)

/-- The token of a punctuation mark. -/
def punctuation? : Char → Option TokenKind
  | ':' => some .colon
  | ';' => some .semicolon
  | ',' => some .comma
  | '(' => some .leftParen
  | ')' => some .rightParen
  | '[' => some .leftBracket
  | ']' => some .rightBracket
  | '{' => some .leftBrace
  | '}' => some .rightBrace
  | _ => none

/-- A token that starts with a hyphen. -/
def hyphenated? (cs : List Char) : Option (Token × List Char) :=
  (numeric? cs).or <| (identlike? cs).or <|
    match cs with
    | '-' :: '-' :: '>' :: rest => some (⟨.cdc, ['-', '-', '>']⟩, rest)
    | '-' :: '-' :: rest =>
      (ident? ('-' :: rest)).map fun (n, rest) => (⟨.customName, '-' :: n⟩, rest)
    | _ => none

/-- A token that takes more than one character or depends on what follows. -/
def longToken? (c : Char) (cs : List Char) : Option (Token × List Char) :=
  match c with
  | '#' => (name? isNameChar cs).map fun (n, rest) => (⟨.hash, '#' :: n⟩, rest)
  | '"' | '\'' =>
    let (good, taken, rest) := stringToken c cs
    some (⟨if good then .string else .badString, taken⟩, rest)
  | '.' | '+' => numeric? (c :: cs)
  | '-' => hyphenated? (c :: cs)
  | '@' => (ident? cs).map fun (n, rest) => (⟨.atKeyword, '@' :: n⟩, rest)
  | '$' | '*' | '^' | '~' =>
    match cs with
    | '=' :: rest => some (⟨.matchOp, [c, '=']⟩, rest)
    | _ => none
  | '|' =>
    match cs with
    | '=' :: rest => some (⟨.matchOp, ['|', '=']⟩, rest)
    | '|' :: rest => some (⟨.column, ['|', '|']⟩, rest)
    | _ => none
  | '/' =>
    match cs with
    | '*' :: rest =>
      let (body, rest) := commentTail rest
      some (⟨.comment, '/' :: '*' :: body⟩, rest)
    | _ => none
  | '<' =>
    match cs with
    | '!' :: '-' :: '-' :: rest => some (⟨.cdo, ['<', '!', '-', '-']⟩, rest)
    | _ => none
  | 'u' | 'U' => (unicodeRange? (c :: cs)).or (identlike? (c :: cs))
  | _ => if Number.isDigit c then numeric? (c :: cs) else identlike? (c :: cs)

/-- The first token of a text that starts with `c`. -/
def token (c : Char) (cs : List Char) : Token × List Char :=
  if isBlank c then
    let (b, rest) := blanks cs
    (⟨.blank, c :: b⟩, rest)
  else
    match punctuation? c with
    | some k => (⟨k, [c]⟩, cs)
    | none => (longToken? c cs).getD (⟨.delim, [c]⟩, cs)

/-- The tokens of a text; each takes at least one character. -/
def scan : Nat → List Char → List Token
  | 0, _ => []
  | _, [] => []
  | fuel + 1, c :: cs =>
    let (t, rest) := token c cs
    t :: scan fuel rest

/-- The tokens of a style sheet. -/
def tokenize (s : String) : List Token := scan s.length s.toList

end DiagramMarkup.Css
