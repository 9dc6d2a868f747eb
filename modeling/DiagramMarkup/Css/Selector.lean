import DiagramMarkup.Text.Split

/-!
# Selectors

Which elements a rule applies to. Only elements, classes and both together can be evaluated on an element alone;
descendants are taken apart for the record, and every other selector keeps its text only.
-/

namespace DiagramMarkup.Css

/-- A selector with what could be read from it. -/
structure Selector where
  raw : String
  /-- The element name, empty when there is none. -/
  element : String := ""
  /-- The class, empty when there is none. -/
  cls : String := ""
  /-- The selector of an element around. -/
  ancestor : Option Selector := none
deriving Repr, Inhabited

/-- Why a selector is not applied to single elements. -/
inductive Obstacle where
  | combinator
  | attribute
  | pseudo
  | id
  | compound
deriving Repr, DecidableEq

/-- A remark about a style sheet. -/
inductive Warning where
  | notInline (why : Obstacle) (selector : String)
  | droppedAtRule (name : String)
deriving Repr, DecidableEq

/-- The name of an obstacle. -/
def Obstacle.name : Obstacle → String
  | .combinator => "combinator selector"
  | .attribute => "attribute selector"
  | .pseudo => "pseudo selector"
  | .id => "id selector"
  | .compound => "compound class selector"

/-- The wording of a remark. -/
def Warning.message : Warning → String
  | .notInline why selector => "not applied inline, " ++ why.name ++ ": " ++ selector
  | .droppedAtRule name => "dropped at-rule: " ++ name

namespace Selector

/-- Is this an element, a class or both? -/
def isSimple (s : Selector) : Bool := (s.element != "" || s.cls != "") && s.ancestor.isNone

/-- Is this the selector of a descendant? -/
def isDescendant (s : Selector) : Bool := s.ancestor.isSome

/-- The rank of simple selectors: element, then class, then both. -/
def specificity (s : Selector) : Nat :=
  (if s.element == "" then 0 else 1) + (if s.cls == "" then 0 else 2)

/-- Does the selector apply to an element with this name and these classes? -/
def applies (s : Selector) (name : String) (classes : List String) : Bool :=
  s.isSimple && (s.element == "" || s.element == "*" || s.element == name) &&
    (s.cls == "" || classes.contains s.cls)

/-- Read an element, a class or both. -/
def parseSimple (text : String) : Selector × List Warning :=
  let text := Text.trim text
  let refuse := fun (why : Obstacle) => (({ raw := text }, [.notInline why text]) : Selector × List Warning)
  if text == "" then ({ raw := text }, [])
  else if Text.hasChar ':' text then refuse .pseudo
  else if Text.hasChar '#' text then refuse .id
  else
    match Text.cut "." text with
    | none => ({ raw := text, element := text }, [])
    | some (element, cls) =>
      if cls == "" || Text.hasChar '.' cls then refuse .compound
      else ({ raw := text, element := element, cls := cls }, [])

/-- Read the parts of a descendant selector, which stand last first; `raw` is its text. -/
def parseParts (raw : String) : List String → Selector × List Warning
  | [] | [_] => ({ raw := raw }, [])
  | last :: outer =>
    let (subject, ws) := parseSimple last
    if !subject.isSimple then ({ raw := raw }, ws)
    else
      let (ancestor, more) := match outer with
        | [single] => parseSimple single
        | _ => parseParts (" ".intercalate outer.reverse) outer
      ({ raw := raw, element := subject.element, cls := subject.cls,
         ancestor := if ancestor.isSimple || ancestor.isDescendant then some ancestor else none },
        ws ++ more)

/-- Read a selector. -/
def parse (text : String) : Selector × List Warning :=
  let text := Text.trim text
  if Text.hasAny "+~>" text then ({ raw := text }, [.notInline .combinator text])
  else if Text.hasChar '[' text then ({ raw := text }, [.notInline .attribute text])
  else if Text.hasAny " \t\n" text then parseParts text (Text.words text).reverse
  else parseSimple text

end Selector

end DiagramMarkup.Css
