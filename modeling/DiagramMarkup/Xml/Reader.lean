import DiagramMarkup.Element.Event
import DiagramMarkup.Text.Charset
import DiagramMarkup.Xml.Name

/-!
# Reading XML

A document text becomes a stream of events. The reading is strict: tags nest, attributes are quoted, and only
the five predefined entities and numeric references stand for characters. The XML declaration and document type
declarations leave no event. Text outside the root, several roots and no root at all are accepted.
-/

namespace DiagramMarkup.Xml

/-- A piece of the document. An empty tag gives a start and an end. -/
inductive Token where
  | start (name : String) (attrs : List (String × String))
  | stop (name : String)
  | leaf (l : Leaf)
  /-- Something without an event of its own. -/
  | hidden

/-- Blanks between the parts of a tag. -/
def isSpace (c : Char) : Bool := c == ' ' || c == '\r' || c == '\n' || c == '\t'

/-- Drop blanks. -/
def skipSpace (cs : List Char) : List Char := cs.dropWhile isSpace

/-- A name, and the rest. Text that ends with the name is incomplete. -/
def readName (cs : List Char) : Option (List Char × List Char) :=
  let name := cs.takeWhile continuesName
  let rest := cs.dropWhile continuesName
  if isName name && !rest.isEmpty then some (name, rest) else none

/-- A name of an element or attribute, which has at most one colon. -/
def readQualified (cs : List Char) : Option (String × List Char) := do
  let (name, rest) ← readName cs
  if 1 < name.count ':' then none else some (String.ofList name, rest)

/-- The character of a numeric reference. -/
def numericChar (base : Nat) (digits : List Char) : Option Char :=
  if digits.isEmpty then none
  else
    let n := Number.natOfDigits base digits
    if 0x10FFFF < n then none
    else if 0xD800 ≤ n && n < 0xE000 then some Text.replacement
    else some (Char.ofNat n)

/-- The character that stands between `&` and `;`. -/
def entity (name : List Char) : Option Char :=
  match name with
  | '#' :: 'x' :: digits => if digits.all Number.isHexDigit then numericChar 16 digits else none
  | '#' :: digits => if digits.all Number.isDigit then numericChar 10 digits else none
  | _ =>
    match String.ofList name with
    | "lt" => some '<'
    | "gt" => some '>'
    | "amp" => some '&'
    | "apos" => some '\''
    | "quot" => some '"'
    | _ => none

/-- Character data with references replaced and line ends unified. `ref` holds the characters of a reference
that has begun, last first, and `afterReturn` tells that a carriage return came just before. -/
def unescape : (ref : Option (List Char)) → (afterReturn : Bool) → List Char → Option (List Char)
  | none, _, [] => some []
  | some _, _, [] => none
  | some name, _, c :: cs =>
    if c == ';' then do
      let d ← entity name.reverse
      return d :: (← unescape none false cs)
    else unescape (some (c :: name)) false cs
  | none, afterReturn, c :: cs =>
    if c == '&' then unescape (some []) false cs
    else if c == '\r' then (unescape none true cs).map ('\n' :: ·)
    else if afterReturn && c == '\n' then unescape none false cs
    else (unescape none false cs).map (c :: ·)

/-- Line ends unified, nothing else changed. -/
def unifyLines : (afterReturn : Bool) → List Char → List Char
  | _, [] => []
  | afterReturn, c :: cs =>
    if c == '\r' then '\n' :: unifyLines true cs
    else if afterReturn && c == '\n' then unifyLines false cs
    else c :: unifyLines false cs

/-- Text of permitted characters. -/
def permitted (cs : List Char) : Option String :=
  if cs.all isChar then some (String.ofList cs) else none

/-- Character data up to the next tag. -/
def readText (cs : List Char) : Option (Token × List Char) := do
  let raw := cs.takeWhile (· != '<')
  if Text.occurs "]]>".toList raw then none
  let s ← permitted (← unescape none false raw)
  return (.leaf (.text s), cs.dropWhile (· != '<'))

/-- A quoted value. -/
def readValue : List Char → Option (String × List Char)
  | [] => none
  | q :: cs =>
    if q == '"' || q == '\'' then do
      let (raw, rest) ← Text.breakOn [q] cs
      if raw.contains '<' then none
      let s ← permitted (← unescape none false raw)
      return (s, rest)
    else none

/-- The attributes of a tag up to its end, and whether the tag is empty. `fuel` bounds their number. -/
def readAttrs : Nat → List Char → Option (List (String × String) × Bool × List Char)
  | 0, _ => none
  | fuel + 1, cs =>
    match skipSpace cs with
    | '>' :: rest => some ([], false, rest)
    | '/' :: '>' :: rest => some ([], true, rest)
    | cs => do
      let (name, rest) ← readQualified cs
      match skipSpace rest with
      | '=' :: rest =>
        let (value, rest) ← readValue (skipSpace rest)
        let (more, empty, rest) ← readAttrs fuel rest
        return ((name, value) :: more, empty, rest)
      | _ => none

/-- A start tag or an empty tag, from its name on. -/
def readStart (cs : List Char) : Option (List Token × List Char) := do
  let (name, rest) ← readQualified cs
  let (attrs, empty, rest) ← readAttrs (rest.length + 1) rest
  let start := Token.start name attrs
  return (if empty then [start, .stop name] else [start], rest)

/-- An end tag, from its name on. -/
def readStop (cs : List Char) : Option (Token × List Char) := do
  let (name, rest) ← readQualified cs
  match skipSpace rest with
  | '>' :: rest => return (.stop name, rest)
  | _ => none

/-- A comment, behind its opening. Two hyphens may only end it. -/
def readComment (cs : List Char) : Option (Token × List Char) := do
  let (body, rest) ← Text.breakOn "--".toList cs
  match rest with
  | '>' :: rest => return (.leaf (.comment (String.ofList body)), rest)
  | _ => none

/-- A CDATA section, behind its opening. -/
def readCData (cs : List Char) : Option (String × List Char) := do
  let (body, rest) ← Text.breakOn "]]>".toList cs
  return (← permitted (unifyLines false body), rest)

/-- What follows a declaration: nested declarations and comments are skipped, quoted text is opaque. -/
def skipDeclaration : Nat → (depth : Nat) → (quote : Option Char) → List Char → Option (List Char)
  | 0, _, _, _ => none
  | _ + 1, _, _, [] => none
  | fuel + 1, depth, some q, c :: cs =>
    skipDeclaration fuel depth (if c == q then none else some q) cs
  | fuel + 1, depth, none, c :: cs =>
    match c with
    | '>' => if depth == 0 then some cs else skipDeclaration fuel (depth - 1) none cs
    | '\'' => skipDeclaration fuel depth (some '\'') cs
    | '"' => skipDeclaration fuel depth (some '"') cs
    | '<' =>
      match cs with
      | '!' :: '-' :: '-' :: rest => do
        let (_, rest) ← Text.breakOn "-->".toList rest
        skipDeclaration fuel depth none rest
      | _ => skipDeclaration fuel (depth + 1) none cs
    | _ => skipDeclaration fuel depth none cs

/-- The value of a setting in the XML declaration, empty when it is missing. -/
def setting (key : List Char) : Nat → List Char → String
  | 0, _ => ""
  | fuel + 1, cs =>
    match Text.breakOn key cs with
    | none => ""
    | some (_, q :: rest) =>
      if q == '"' || q == '\'' then
        match Text.breakOn [q] rest with
        | some (value, _) => String.ofList value
        | none => ""
      else setting key fuel rest
    | some (_, []) => ""

/-- How the text behind an XML declaration is read. -/
inductive Declared where
  | refused
  | plain
  | set (s : Text.Charset)

/-- What an XML declaration asks for: version 1.0 and a known character set. -/
def declared (body : List Char) : Declared :=
  let version := setting "version=".toList body.length body
  let label := setting "encoding=".toList body.length body
  if version != "" && version != "1.0" then .refused
  else if label == "" || label.map Number.lowerAscii == "utf-8" then .plain
  else
    match Text.Charset.ofLabel? label with
    | some s => .set s
    | none => .refused

/-- Where the reading of a document stands. -/
structure Cursor where
  rest : List Char
  /-- Whether CDATA sections are kept apart from text: not behind a declared character set. -/
  marksCData : Bool := true

/-- A processing instruction, behind its opening. -/
def readInstruction (cur : Cursor) : Option (Token × Cursor) := do
  let (target, rest) ← readName cur.rest
  let (body, rest) ← Text.breakOn "?>".toList (skipSpace rest)
  let target := String.ofList target
  if target == "xml" then
    match declared body with
    | .refused => none
    | .plain => return (.hidden, { cur with rest := rest })
    | .set s => return (.hidden, { rest := s.decode (Text.toBytes rest), marksCData := false })
  else return (.leaf (.procInst target (String.ofList body)), { cur with rest := rest })

/-- The next piece of a document that is not at its end. -/
def readToken (cur : Cursor) : Option (List Token × Cursor) := do
  let plain := fun (r : Token × List Char) => (([r.1], { cur with rest := r.2 }) : List Token × Cursor)
  match cur.rest with
  | '<' :: '/' :: rest => return plain (← readStop rest)
  | '<' :: '?' :: rest =>
    let (t, cur) ← readInstruction { cur with rest := rest }
    return ([t], cur)
  | '<' :: '!' :: '-' :: rest =>
    match rest with
    | '-' :: rest => return plain (← readComment rest)
    | _ => none
  | '<' :: '!' :: '[' :: rest =>
    match Text.after? "CDATA[" (String.ofList (rest.take 6)) with
    | none => none
    | some _ =>
      let (s, rest) ← readCData (rest.drop 6)
      return plain (.leaf (if cur.marksCData then .cdata s else .text s), rest)
  | '<' :: '!' :: _ :: rest =>
    return plain (.hidden, ← skipDeclaration (rest.length + 1) 0 none rest)
  | '<' :: rest =>
    let (ts, rest) ← readStart rest
    return (ts, { cur with rest := rest })
  | cs => return plain (← readText cs)

/-- All pieces of a document; each takes at least one character. -/
def readTokens : Nat → Cursor → Option (List Token)
  | 0, _ => none
  | fuel + 1, cur =>
    if cur.rest.isEmpty then some []
    else do
      let (ts, cur) ← readToken cur
      return ts ++ (← readTokens fuel cur)

/-- Do the tags nest, with the names in `opened` still open? -/
def nests : (opened : List String) → List Token → Bool
  | opened, [] => opened.isEmpty
  | opened, .start name _ :: ts => nests (name :: opened) ts
  | name :: opened, .stop n :: ts => name == n && nests opened ts
  | [], .stop _ :: _ => false
  | opened, _ :: ts => nests opened ts

/-- The element of a tag. A repeated attribute keeps its place and takes its last value. -/
def elementOf (name : String) (attrs : List (String × String)) : Element :=
  Element.ofAttrs name (Attrs.ofList attrs).entries

/-- The events of tokens. A start directly before its end is an empty element. -/
def toEvents : List Token → List Event
  | [] => []
  | .start name attrs :: .stop _ :: ts => .empty (elementOf name attrs) :: toEvents ts
  | .start name attrs :: ts => .start (elementOf name attrs) :: toEvents ts
  | .stop name :: ts => .close name :: toEvents ts
  | .leaf l :: ts => .leaf l :: toEvents ts
  | .hidden :: ts => toEvents ts

/-- The events of what is left of a document, if it is well formed. -/
def readFrom (cur : Cursor) : Option (List Event) := do
  let ts ← readTokens (4 * cur.rest.length + 2) cur
  if nests [] ts then some (toEvents ts) else none

/-- The events of a document, if it is well formed. -/
def readChars (cs : List Char) : Option (List Event) := readFrom { rest := cs }

/-- The events of a document, if it is well formed. -/
def read (s : String) : Option (List Event) := readChars s.toList

/-- What stands for a stray byte: a character that no document may hold. -/
def stray : Char := '\uFFFF'

/-- The character set that an XML declaration at the start asks for, and the text behind the declaration. -/
def leadingSet? (cs : List Char) : Option (Text.Charset × List Char) := do
  match cs with
  | '<' :: '?' :: rest =>
    let (target, rest) ← readName rest
    guard (target == "xml".toList)
    let (body, rest) ← Text.breakOn "?>".toList (skipSpace rest)
    match declared body with
    | .set s => return (s, rest)
    | _ => none
  | _ => none

/-- The events of a document given in bytes. They are UTF-8, or in the character set that the document declares at its
start. -/
def readBytes (bs : List UInt8) : Option (List Event) :=
  let cs := (Text.decode bs).map (·.getD stray)
  match leadingSet? cs with
  | some (s, rest) =>
    let declaration := Text.byteLength (cs.take (cs.length - rest.length))
    readFrom { rest := s.decode (bs.drop declaration), marksCData := false }
  | none => readChars cs

end DiagramMarkup.Xml
