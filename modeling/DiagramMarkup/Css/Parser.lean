import DiagramMarkup.Css.Grammar
import DiagramMarkup.Css.Sheet
import DiagramMarkup.Text.Lower

/-!
# Reading style sheets

The parts of a style sheet become its items. Reading stops at the first malformed part outside of dropped blocks,
and keeps what was read before it.
-/

namespace DiagramMarkup.Css

/-- A text without the quotes around it. -/
def unquote (s : String) : String :=
  let s := Text.trim s
  match s.toList with
  | q :: rest =>
    if (q == '"' || q == '\'') && rest.getLast? == some q then String.ofList rest.dropLast else s
  | [] => s

/-- The text of tokens. -/
def joinTokens (ts : List Token) : String :=
  Text.trim (String.join (ts.map fun t => if t.kind == .blank then " " else t.text))

/-- A number, infinite when it is too large and zero when it is none. -/
def numberOf (s : String) : Float :=
  match Number.read s with
  | .ok x => x
  | .error .outOfRange => Number.infinity (Text.startsWith "-" s)
  | .error .malformed => 0

/-- The number and unit of a dimension. -/
def splitDimension (cs : List Char) : Float × String :=
  let isNumeric := fun c => Number.isDigit c || c == '.' || c == '-' || c == '+'
  (numberOf (String.ofList (cs.takeWhile isNumeric)),
    Text.lower (String.ofList (cs.dropWhile isNumeric)))

/-- The value of a declaration. -/
def valueOf (ts : List Token) : Value :=
  let raw := joinTokens ts
  match ts with
  | [t] =>
    match t.kind with
    | .dimension =>
      let (v, unit) := splitDimension t.chars
      { raw := raw, value := v, unit := unit }
    | .percentage => { raw := raw, value := numberOf (Text.dropEnd "%" t.text), unit := "%" }
    | .number => { raw := raw, value := numberOf t.text }
    | .ident => { raw := raw, keyword := Text.lower t.text }
    | .string => { raw := raw, keyword := unquote t.text }
    | .hash => { raw := raw, keyword := t.text }
    | _ => { raw := raw }
  | _ => { raw := raw, keyword := raw }

/-- The address in an import. -/
def importUrl? : List Token → Option String
  | [] => none
  | t :: ts =>
    match t.kind with
    | .string => some (unquote t.text)
    | .url => some (unquote (Text.trim (Text.dropEnd ")" (Text.dropStart "url(" t.text))))
    | _ => importUrl? ts

/-- The texts of a group of selectors. -/
def selectorTexts (ts : List Token) : List String :=
  ((Text.splitAt ',' (String.join (ts.map Token.text))).map Text.trim).filter (· != "")

/-- One rule for each selector of a group, and the remarks about them. -/
def rulesOf (selectors : List String) (props : Properties) : List Rule × List Warning :=
  if props.isEmpty then ([], [])
  else
    let parsed := selectors.map Selector.parse
    (parsed.map fun p => ⟨p.1, props⟩, parsed.flatMap (·.2))

/-- Add the declaration of a part to a font. -/
def FontFace.declare (f : FontFace) (name : String) (values : List Token) : FontFace :=
  if values.isEmpty then f
  else
    let v := " ".intercalate ((values.filter (·.kind != .blank)).map Token.text)
    match name with
    | "font-family" => { f with family := unquote v }
    | "src" => { f with src := v }
    | "font-style" => { f with style := v }
    | "font-weight" => { f with weight := v }
    | _ => f

/-- What the parts are collected into. -/
inductive Collecting where
  /-- Items of the sheet. -/
  | items
  /-- Rules of a media block. -/
  | media (query : String) (rules : List Rule)
  /-- A rule set, inside a media block or not. -/
  | rules (outer : Option (String × List Rule)) (selectors : List String) (props : Properties)
  | font (f : FontFace)
  /-- A dropped block, with this many blocks open in it besides itself. -/
  | dropped (name : String) (inner : Nat)

/-- Add an item. -/
def Sheet.addItem (s : Sheet) (i : Item) : Sheet := { s with items := s.items ++ [i] }

/-- Add remarks. -/
def Sheet.warn (s : Sheet) (ws : List Warning) : Sheet := { s with warnings := s.warnings ++ ws }

/-- Finish a rule set: its rules join the media block around or the sheet. -/
def Sheet.closeRules (s : Sheet) (outer : Option (String × List Rule)) (selectors : List String)
    (props : Properties) : Sheet × Collecting :=
  let (rs, ws) := rulesOf selectors props
  let s := s.warn ws
  match outer with
  | some (query, before) => (s, .media query (before ++ rs))
  | none => ({ s with items := s.items ++ rs.map .rule }, .items)

/-- Collect parts into a sheet; tells whether the reading reached the end. -/
def collect : Sheet → Collecting → List Part → Sheet × Bool
  | s, _, [] => (s, true)
  | s, .items, p :: ps =>
    match p with
    | .fault => (s, false)
    | .finished => (s, true)
    | .beginAt "@media" values => collect s (.media (joinTokens values) []) ps
    | .beginAt "@font-face" _ => collect s (.font {}) ps
    | .beginAt name _ => collect s (.dropped name 0) ps
    | .atRule "@import" values =>
      match importUrl? values with
      | some url => collect (if url == "" then s else s.addItem (.importUrl url)) .items ps
      | none => collect s .items ps
    | .beginRules selector => collect s (.rules none (selectorTexts selector) []) ps
    | _ => collect s .items ps
  | s, .media query rs, p :: ps =>
    match p with
    | .fault => (s, false)
    | .finished => (s.addItem (.media query rs), true)
    | .endAt => collect (s.addItem (.media query rs)) .items ps
    | .beginRules selector => collect s (.rules (some (query, rs)) (selectorTexts selector) []) ps
    | _ => collect s (.media query rs) ps
  | s, .rules outer selectors props, p :: ps =>
    match p with
    | .fault =>
      let (rs, ws) := rulesOf selectors props
      let s := s.warn ws
      (if outer.isSome then s else { s with items := s.items ++ rs.map .rule }, false)
    | .finished =>
      match s.closeRules outer selectors props with
      | (s, .media query rs) => (s.addItem (.media query rs), true)
      | (s, _) => (s, true)
    | .endRules =>
      let (s, c) := s.closeRules outer selectors props
      collect s c ps
    | .declaration name values =>
      collect s (.rules outer selectors
        (if values.isEmpty then props else Properties.put props name (valueOf values))) ps
    | .custom name value =>
      collect s (.rules outer selectors (Properties.put props name (.ofText (Text.trim value)))) ps
    | _ => collect s (.rules outer selectors props) ps
  | s, .font f, p :: ps =>
    match p with
    | .fault | .finished | .endAt => collect (s.addItem (.fontFace f)) .items ps
    | .declaration name values => collect s (.font (f.declare name values)) ps
    | _ => collect s (.font f) ps
  | s, .dropped name inner, p :: ps =>
    match p with
    | .fault | .finished => collect (s.warn [.droppedAtRule name]) .items ps
    | .beginAt .. | .beginRules _ => collect s (.dropped name (inner + 1)) ps
    | .endAt | .endRules =>
      match inner with
      | 0 => collect (s.warn [.droppedAtRule name]) .items ps
      | n + 1 => collect s (.dropped name n) ps
    | _ => collect s (.dropped name inner) ps

/-- Read a style sheet; tells whether it is well formed. -/
def Sheet.parse (text : String) : Sheet × Bool := collect {} .items (parts text)

end DiagramMarkup.Css
