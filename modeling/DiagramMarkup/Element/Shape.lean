import DiagramMarkup.Element.Basic
import DiagramMarkup.Element.Points
import DiagramMarkup.Element.Segment

/-!
# Shapes

How the geometry of an element is stored in its attributes. An element's box is read from them, written to
them, or moved.
-/

namespace DiagramMarkup

/-- The kinds of native geometry. -/
inductive Shape where
  /-- `x y width height` -/
  | box
  /-- `cx cy r` -/
  | circle
  /-- `cx cy rx ry` -/
  | ellipse
  /-- `x1 y1 x2 y2` -/
  | line
  /-- `points` -/
  | points
  /-- `d` -/
  | path
  /-- `x y` only -/
  | point
deriving Repr, DecidableEq

/-- The geometry of an element with this name; other elements have none. -/
def Shape.ofName? : String → Option Shape
  | "rect" | "image" | "use" | "svg" | "foreignObject" => some .box
  | "circle" => some .circle
  | "ellipse" => some .ellipse
  | "line" => some .line
  | "polyline" | "polygon" => some .points
  | "path" => some .path
  | "text" => some .point
  | _ => none

/-- Is this geometry given by a place and a size? -/
def Shape.sized : Shape → Bool
  | .box | .circle | .ellipse => true
  | _ => false

namespace Element

open Scalar

/-- The geometry of the element. -/
def shape? (el : Element) : Option Shape := Shape.ofName? el.name

variable {α : Type} [Scalar α]

/-- A numeric attribute, which may carry the unit `px`; nothing when it is missing. -/
def number (el : Element) (name : String) : Except Fault (Option α) :=
  match el.get? name with
  | none => .ok none
  | some s =>
    let t := Text.trim (Text.dropEnd "px" (Text.trim s))
    match read? t with
    | some v => .ok (some v)
    | none => .error (.attrNumber name t)

/-- A numeric attribute, zero when it is missing. -/
def numberOrZero (el : Element) (name : String) : Except Fault α :=
  (el.number name).map (·.getD zero)

/-- Store a number. -/
def setNumber (el : Element) (name : String) (v : α) : Element := el.set name (fixed v)

/-- The box that the native geometry describes, if its attributes determine one. -/
def box? (el : Element) : Except Fault (Option (Box α)) := do
  match el.shape? with
  | some .box =>
    let x ← el.numberOrZero "x"
    let y ← el.numberOrZero "y"
    let w ← el.number "width"
    let h ← el.number "height"
    match w, h with
    | some w, some h => return some (Box.ofSize x y w h)
    | _, _ => return none
  | some .circle =>
    let cx ← el.numberOrZero "cx"
    let cy ← el.numberOrZero "cy"
    let r ← el.number "r"
    match r with
    | some r => return some ⟨cx - r, cy - r, cx + r, cy + r⟩
    | none => return none
  | some .ellipse =>
    let cx ← el.numberOrZero "cx"
    let cy ← el.numberOrZero "cy"
    let rx ← el.number "rx"
    let ry ← el.number "ry"
    match rx, ry with
    | some rx, some ry => return some ⟨cx - rx, cy - ry, cx + rx, cy + ry⟩
    | _, _ => return none
  | some .line =>
    let x1 ← el.numberOrZero "x1"
    let y1 ← el.numberOrZero "y1"
    let x2 ← el.numberOrZero "x2"
    let y2 ← el.numberOrZero "y2"
    return some ⟨x1, y1, x2, y2⟩
  | some .points => return Points.box? (← Points.parse (el.attrs.value "points"))
  | some .path =>
    match el.get? "d" with
    | none => return none
    | some d => Path.box? d
  | some .point | none => return none

/-- The element with native geometry that fills the box. Lines keep the direction of the box. -/
def setBox (el : Element) (b : Box α) : Element :=
  let n := b.normalized
  let c := b.center
  match el.shape? with
  | some .box =>
    (((el.setNumber "x" n.x1).setNumber "y" n.y1).setNumber "width" n.width).setNumber
      "height" n.height
  | some .circle =>
    ((el.setNumber "cx" c.x).setNumber "cy" c.y).setNumber "r" (least n.width n.height / two)
  | some .ellipse =>
    (((el.setNumber "cx" c.x).setNumber "cy" c.y).setNumber "rx" (n.width / two)).setNumber
      "ry" (n.height / two)
  | some .line =>
    (((el.setNumber "x1" b.x1).setNumber "y1" b.y1).setNumber "x2" b.x2).setNumber "y2" b.y2
  | some .point => (el.setNumber "x" b.x1).setNumber "y" b.y1
  | some .points | some .path | none => el

/-- Add an outer step to the transform of the element. -/
def prependTransform (el : Element) (t : String) : Element :=
  match el.get? "transform" with
  | some cur => el.set "transform" (if Text.trim cur == "" then t else t ++ " " ++ cur)
  | none => el.set "transform" t

/-- A computation on an element. What it changed before a failure stays changed. -/
abbrev Edit (ε : Type) := ExceptT ε (StateM Element)

/-- Add to a coordinate that is present. -/
def shiftNumber (name : String) (d : α) : Edit Fault Unit := do
  match (← get).number name with
  | .error e => throw e
  | .ok none => return
  | .ok (some v) => modify (·.setNumber name (v + d))

/-- Give a missing coordinate a value. -/
def fillNumber (name : String) (v : α) : Edit Fault Unit := do
  unless (← get).has name do modify (·.setNumber name v)

/-- Move the element. Its coordinates change; elements without coordinates get an outer translation
step. -/
def translate (dx dy : α) : Edit Fault Unit := do
  if dx == zero && dy == zero then return
  match (← get).shape? with
  | some .box | some .point =>
    shiftNumber "x" dx
    shiftNumber "y" dy
    fillNumber "x" dx
    fillNumber "y" dy
  | some .circle | some .ellipse =>
    shiftNumber "cx" dx
    shiftNumber "cy" dy
  | some .line =>
    shiftNumber "x1" dx
    shiftNumber "y1" dy
    shiftNumber "x2" dx
    shiftNumber "y2" dy
  | some .points =>
    match (Points.parse ((← get).attrs.value "points") : Except Fault (List (Point α))) with
    | .error e => throw e
    | .ok ps =>
      modify (·.set "points" (Points.text (ps.map fun p => (⟨p.x + dx, p.y + dy⟩ : Point α))))
  | some .path | none =>
    modify (·.prependTransform ("translate(" ++ fixed dx ++ ", " ++ fixed dy ++ ")"))

end Element

end DiagramMarkup
