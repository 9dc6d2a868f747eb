import DiagramMarkup.Element.Node

/-!
# Roles of elements

What an element does in a document, decided by its name alone. Whatever has no role of its own is a shape.
-/

namespace DiagramMarkup

/-- The roles of elements. -/
inductive Role where
  /-- Repeat the content by count or condition. -/
  | loop
  /-- Repeat the content for the items of a list. -/
  | each
  /-- Draw the content if a test holds. -/
  | branch
  /-- Assign variables. -/
  | assign
  /-- Change options. -/
  | config
  /-- Define defaults of elements. -/
  | defaults
  /-- Define templates. -/
  | templates
  /-- Instantiate a template. -/
  | reuse
  | gradient
  /-- A rectangle that fits its text. -/
  | textBox
  | person
  | pipeline
  /-- Copied without change. -/
  | verbatim
  /-- Holds other elements, which are drawn where it stands or kept for later use. -/
  | container (drawn : Bool)
  | shape
deriving Repr, DecidableEq

namespace Role

/-- The role of elements with a name. -/
def ofName : String → Role
  | "loop" => .loop
  | "for" => .each
  | "if" => .branch
  | "var" => .assign
  | "config" => .config
  | "defaults" => .defaults
  | "specs" => .templates
  | "reuse" => .reuse
  | "linearGradient" | "radialGradient" => .gradient
  | "tbox" => .textBox
  | "person" => .person
  | "pipeline" => .pipeline
  | "style" | "script" | "title" | "desc" | "metadata" => .verbatim
  | "g" | "a" | "switch" => .container true
  | "defs" | "symbol" | "marker" | "mask" | "clipPath" | "pattern" | "filter" => .container false
  | _ => .shape

/-- Does an element with this role become the target of `^`? -/
def isGraphic : Role → Bool
  | .reuse | .textBox | .person | .pipeline | .shape => true
  | .container drawn => drawn
  | _ => false

/-- Does a node become the target of `^`? -/
def isTarget : Node → Bool
  | .element el _ => (ofName el.name).isGraphic
  | .leaf _ => false

end Role

end DiagramMarkup
