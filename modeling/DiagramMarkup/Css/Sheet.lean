import DiagramMarkup.Css.Selector
import DiagramMarkup.Number.Decimal
import DiagramMarkup.Number.Reader

/-!
# Style sheets

Rules, media blocks, font faces and imports in source order; what the rules say about a single element; and the
text of a sheet.
-/

namespace DiagramMarkup.Css

/-- The value of a property, with the number, unit or keyword it consists of. -/
structure Value where
  raw : String
  value : Float := 0
  unit : String := ""
  keyword : String := ""
deriving Repr

namespace Value

/-- A value known by its text only. -/
def ofText (s : String) : Value := { raw := s, keyword := s }

/-- Does the text start like a number? -/
def startsNumeric (s : String) : Bool :=
  match s.toList with
  | c :: _ => Number.isDigit c || c == '.' || c == '-' || c == '+'
  | [] => false

/-- Does the value have a number, be it zero? -/
def isNumeric (v : Value) : Bool :=
  v.unit != "" || (v.value != 0 && v.keyword == "") || (v.keyword == "" && startsNumeric v.raw)

/-- Is the value a keyword? -/
def isKeyword (v : Value) : Bool := v.keyword != "" && v.unit == ""

end Value

/-- Properties by name, each name once. -/
abbrev Properties := List (String × Value)

/-- Give a property a value. -/
def Properties.put (ps : Properties) (name : String) (v : Value) : Properties :=
  match ps with
  | [] => [(name, v)]
  | p :: rest => if p.1 == name then (name, v) :: rest else p :: Properties.put rest name v

/-- A selector with its properties. -/
structure Rule where
  selector : Selector
  properties : Properties
deriving Repr

/-- A font declaration. -/
structure FontFace where
  family : String := ""
  src : String := ""
  style : String := ""
  weight : String := ""
deriving Repr

/-- A top-level item. -/
inductive Item where
  | rule (r : Rule)
  | media (query : String) (rules : List Rule)
  | fontFace (f : FontFace)
  | importUrl (url : String)
deriving Repr

/-- A style sheet with the remarks about it. -/
structure Sheet where
  items : List Item := []
  warnings : List Warning := []
deriving Repr

namespace Sheet

/-- Add a rule given by the text of its selector and declarations. -/
def add (s : Sheet) (selector : String) (decls : List (String × String)) : Sheet :=
  let (sel, ws) := Selector.parse selector
  let props := decls.foldl (fun ps d => Properties.put ps d.1 (.ofText d.2)) []
  { items := s.items ++ [.rule ⟨sel, props⟩], warnings := s.warnings ++ ws }

/-- The items of both sheets; the second wins at equal rank. -/
def append (s t : Sheet) : Sheet :=
  { items := s.items ++ t.items, warnings := s.warnings ++ t.warnings }

/-- The addresses of imported sheets. -/
def imports (s : Sheet) : List String :=
  s.items.filterMap fun
    | .importUrl url => some url
    | _ => none

/-- The font declarations with a family. -/
def fontFaces (s : Sheet) : List FontFace :=
  s.items.filterMap fun
    | .fontFace f => if f.family == "" then none else some f
    | _ => none

/-- The top-level rules. -/
def rules (s : Sheet) : List Rule :=
  s.items.filterMap fun
    | .rule r => some r
    | _ => none

/-- The top-level rules with a selector of this text. -/
def rulesBySelector (s : Sheet) (selector : String) : List Rule :=
  s.rules.filter (·.selector.raw == selector)

/-- Put a rule behind those of lower or equal rank. -/
def insertByRank (r : Rule) : List Rule → List Rule
  | [] => [r]
  | q :: qs =>
    if r.selector.specificity < q.selector.specificity then r :: q :: qs
    else q :: insertByRank r qs

/-- The properties that the top-level rules give an element. Higher rank wins, then the later rule. -/
def inline (s : Sheet) (name : String) (classes : List String) : List (String × String) :=
  let matching := s.rules.filter (·.selector.applies name classes)
  let ranked := matching.foldl (fun rs r => insertByRank r rs) []
  let props := ranked.foldl
    (fun ps r => r.properties.foldl (fun ps p => Properties.put ps p.1 p.2) ps) ([] : Properties)
  props.map fun p => (p.1, p.2.raw)

/-! ## Text -/

/-- A text between double quotes in a style sheet. -/
def quoteChars (cs : List Char) : List Char :=
  cs.flatMap fun c => if c == '\\' || c == '"' then ['\\', c] else [c]

/-- A text in double quotes. -/
def quoted (s : String) : String := "\"" ++ String.ofList (quoteChars s.toList) ++ "\""

/-- The order in which properties are written. -/
def sortNames {β : Type} (ps : List (String × β)) : List (String × β) :=
  ps.mergeSort fun a b => a.1 ≤ b.1

/-- One declaration. -/
def declarationText (name value : String) : String := " " ++ name ++ ": " ++ value ++ ";"

/-- A rule in one line. -/
def ruleText (indent : String) (r : Rule) : String :=
  indent ++ r.selector.raw ++ " \x7b" ++
    String.join ((sortNames r.properties).map fun p => declarationText p.1 p.2.raw) ++ " \x7d\n"

/-- A declaration, unless its value is empty. -/
def optionalText (name value : String) : String :=
  if value == "" then "" else declarationText name value

/-- The text of an item. -/
def itemText : Item → String
  | .importUrl url => "@import url(" ++ quoted url ++ ");\n"
  | .fontFace f =>
    "@font-face \x7b" ++
      (if f.family == "" then "" else declarationText "font-family" (quoted f.family)) ++
      optionalText "src" f.src ++ optionalText "font-style" f.style ++
      optionalText "font-weight" f.weight ++ " \x7d\n"
  | .media query rules =>
    "@media " ++ query ++ " \x7b\n" ++ String.join (rules.map (ruleText "  ")) ++ "\x7d\n"
  | .rule r => ruleText "" r

/-- The text of a sheet. -/
def text (s : Sheet) : String := String.join (s.items.map itemText)

end Sheet

end DiagramMarkup.Css
