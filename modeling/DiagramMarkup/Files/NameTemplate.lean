import DiagramMarkup.Files.Path

/-!
# Name templates

An output name may be given as text with fields in double braces, each a dot and the name of a field. A hyphen inside
the braces removes the white space on its side.
-/

namespace DiagramMarkup.Files

/-- What a name template can refer to. -/
structure NameFields where
  /-- The name of the setting that holds the template. -/
  context : String
  name : String
  sourceFile : String
  sourceDir : String
  index : Int
  title : String
  width : String
  height : String
  runId : String

/-- The value of a field. -/
def NameFields.get? (f : NameFields) : String → Option String
  | "Context" => some f.context
  | "Name" => some f.name
  | "SourceFile" => some f.sourceFile
  | "SourceDir" => some f.sourceDir
  | "Index" => some (toString f.index)
  | "Title" => some f.title
  | "Width" => some f.width
  | "Height" => some f.height
  | "RunID" => some f.runId
  | _ => none

/-- Why a name template gives no name. -/
inductive TemplateFault where
  /-- It is malformed. -/
  | form
  /-- It refers to an unknown field. -/
  | field
deriving Repr, DecidableEq

/-- The wording of a template fault. -/
def TemplateFault.message (setting : String) : TemplateFault → String
  | .form => "unable to parse template field " ++ setting ++ ": template: "
  | .field => "template: "

namespace NameTemplate

/-- A part of a template. -/
inductive Part where
  | text (cs : List Char)
  | field (name : String)
deriving Repr, DecidableEq

/-- White space that a hyphen in the braces removes. -/
def isGap (c : Char) : Bool := c == ' ' || c == '\t' || c == '\r' || c == '\n'

/-- The opening and the closing braces. -/
def marks : List Char × List Char := (['{', '{'], ['}', '}'])

/-- A hyphen and a gap at the start of what stands in braces. -/
def leftTrim (cs : List Char) : Bool × List Char :=
  match cs with
  | '-' :: c :: rest => if isGap c then (true, c :: rest) else (false, cs)
  | _ => (false, cs)

/-- A gap and a hyphen at the end of what stands in braces. -/
def rightTrim (cs : List Char) : Bool × List Char :=
  match cs.reverse with
  | '-' :: c :: rest => if isGap c then (true, (c :: rest).reverse) else (false, cs)
  | _ => (false, cs)

/-- Characters of field names. -/
def isFieldChar (c : Char) : Bool := c.isAlphanum || c == '_'

/-- The field named between braces. -/
def fieldOf? (cs : List Char) : Option String :=
  let cs := (cs.dropWhile isGap).reverse.dropWhile isGap |>.reverse
  match cs with
  | '.' :: name => if !name.isEmpty && name.all isFieldChar then some (String.ofList name) else none
  | _ => none

/-- Drop the white space at the end of a text. -/
def trimEnd (cs : List Char) : List Char := (cs.reverse.dropWhile isGap).reverse

/-- The parts of a template; each field takes at least its braces off the text. -/
def parseFuel : Nat → List Char → Option (List Part)
  | 0, cs => some [.text cs]
  | fuel + 1, cs =>
    match Text.breakOn marks.1 cs with
    | none => some [.text cs]
    | some (before, rest) => do
      let (inner, rest) ← Text.breakOn marks.2 rest
      let (cutBefore, inner) := leftTrim inner
      let (cutAfter, inner) := rightTrim inner
      let name ← fieldOf? inner
      let rest := if cutAfter then rest.dropWhile isGap else rest
      let more ← parseFuel fuel rest
      return .text (if cutBefore then trimEnd before else before) :: .field name :: more

/-- The parts of a template. -/
def parse? (s : String) : Option (List Part) := parseFuel s.toList.length s.toList

/-- A part with its field filled in. -/
def Part.fill? (f : NameFields) : Part → Option (List Char)
  | .text cs => some cs
  | .field name => (f.get? name).map String.toList

/-- The text that a template gives. -/
def expand (s : String) (f : NameFields) : Except TemplateFault String :=
  match parse? s with
  | none => .error .form
  | some ps =>
    match ps.mapM (Part.fill? f) with
    | none => .error .field
    | some cs => .ok (String.ofList cs.flatten)

end NameTemplate

end DiagramMarkup.Files
