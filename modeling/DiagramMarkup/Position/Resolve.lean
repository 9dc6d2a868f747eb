import DiagramMarkup.Element.Shape
import DiagramMarkup.Geometry.Extent
import DiagramMarkup.Position.Ref

/-!
# Positional attributes

An element may be placed and sized by shorthand: `surround` and `inside` with `margin`, `wh`, `dw` and `dh`
for the size; `xy`, `cxy`, `xy-loc`, `xy1`, `xy2`, `dx` and `dy` for the place. `resolve` turns them into
native geometry. Sizes come first, since placing anything but the upper left corner needs the final size.
-/

namespace DiagramMarkup.Position

open Scalar Element

/-- The positional attributes. -/
def attributes : List String :=
  ["xy", "cxy", "xy-loc", "wh", "xy1", "xy2", "surround", "inside", "margin", "dx", "dy", "dw", "dh"]

/-- Does the element carry a positional attribute? -/
def has (el : Element) : Bool := attributes.any el.has

/-- Remove an attribute and give its value. -/
def take (name : String) : Edit Failure (Option String) := do
  let el ← get
  set (el.erase name)
  return el.get? name

/-- Fail because of an attribute of the element as it is now. -/
def failOn {β : Type} (attr : String) (f : Fault) : Edit Failure β := do
  throw (.parse (some (← get)) attr f)

/-- The value of a reading, or a failure because of an attribute. -/
def orFail {β : Type} (attr : String) (r : Except Fault β) : Edit Failure β :=
  match r with
  | .ok x => pure x
  | .error f => failOn attr f

/-- Fail because of an attribute unless the condition holds. -/
def require (holds : Bool) (attr : String) (f : Fault) : Edit Failure Unit :=
  if holds then pure () else failOn attr f

/-- Run a change of the element whose faults belong to an attribute. -/
def editing (attr : String) (e : Edit Fault Unit) : Edit Failure Unit := do
  let (r, el) := e.run (← get)
  set el
  orFail attr r

variable {α : Type} [Scalar α]

/-- The box of a reference. -/
def boxOf (refs : Referrer α) (ref : String) : Edit Failure (Box α) :=
  match refs ref with
  | .ok b => pure b
  | .error f => throw f

/-! ## Sizes -/

/-- Unsigned width and height. -/
def extentOf (b : Box α) : Point α := ⟨abs b.width, abs b.height⟩

/-- The native size of a sized shape, as far as it is given. -/
def sizeOf (el : Element) (shape : Shape) : Except Fault (Option α × Option α) := do
  match shape with
  | .box => return (← el.number "width", ← el.number "height")
  | .circle =>
    let r ← el.number "r"
    return (r.map (two * ·), r.map (two * ·))
  | .ellipse =>
    let rx ← el.number "rx"
    let ry ← el.number "ry"
    return (rx.map (two * ·), ry.map (two * ·))
  | _ => return (none, none)

/-- Give a sized shape a size. -/
def setSize (shape : Shape) (w h : α) (el : Element) : Element :=
  match shape with
  | .box => (el.setNumber "width" w).setNumber "height" h
  | .circle => el.setNumber "r" (least w h / two)
  | .ellipse => (el.setNumber "rx" (w / two)).setNumber "ry" (h / two)
  | _ => el

/-- The four amounts of a margin: above, right, below, left. -/
structure Margin (α : Type) where
  top : α
  right : α
  bottom : α
  left : α

/-- Read `m`, `mx my` or `t r b l`; percentages refer to the width or the height. -/
def Margin.parse (s : String) (b : Box α) : Except Fault (Margin α) := do
  let ls : List (Length α) ← (Numbers.split s).mapM parseDelta
  let size := extentOf b
  match ls with
  | [m] => return ⟨m.of size.y, m.of size.x, m.of size.y, m.of size.x⟩
  | [mx, my] => return ⟨my.of size.y, mx.of size.x, my.of size.y, mx.of size.x⟩
  | [t, r, b, l] => return ⟨t.of size.y, r.of size.x, b.of size.y, l.of size.x⟩
  | _ => throw (.margin s)

/-- Move the sides of a box out by a margin, or in. -/
def Margin.apply (m : Margin α) (inward : Bool) (b : Box α) : Box α :=
  if inward then b.expandSides (-m.top) (-m.right) (-m.bottom) (-m.left)
  else b.expandSides m.top m.right m.bottom m.left

/-- The box of the round shape that encloses a box. -/
def circumscribed (shape : Shape) (b : Box α) : Box α :=
  let c := b.center
  match shape with
  | .circle =>
    let r := hypot b.width b.height / two
    ⟨c.x - r, c.y - r, c.x + r, c.y + r⟩
  | .ellipse =>
    let rx := b.width / sqrtTwo
    let ry := b.height / sqrtTwo
    ⟨c.x - rx, c.y - ry, c.x + rx, c.y + ry⟩
  | _ => b

/-- Fail because of an attribute unless the shape is placed by a size. -/
def requireSized (shape : Shape) (attr : String) : Edit Failure Unit := do
  let el ← get
  require shape.sized attr (.unsupported el.name)

/-- The boxes of a list of references. -/
def boxesOf (refs : Referrer α) (attr v : String) : Edit Failure (List (Box α)) := do
  let targets := Text.words v
  require (!targets.isEmpty) attr .noReferences
  targets.mapM fun t => do
    require (isRef t) attr (.notReference t)
    boxOf refs t

/-- The box around all boxes of a list, or within all of them. -/
def combined (inside : Bool) (v : String) (boxes : List (Box α)) : Edit Failure (Box α) := do
  let el ← get
  match if inside then Box.intersectAll? boxes else Box.unionAll? boxes with
  | some b => return b
  | none => throw (.raise .document (some el) "" (.fault (.noOverlap v)))

/-- A box with its sides moved by the margin of the element. -/
def margined (inside : Bool) (b : Box α) : Edit Failure (Box α) := do
  match ← take "margin" with
  | none => return b
  | some m => return (← orFail "margin" (Margin.parse m b)).apply inside b

/-- Place the shape around or within the boxes of a list of references. -/
def enclose (refs : Referrer α) (shape : Shape) (inside : Bool) (attr v : String) :
    Edit Failure Unit := do
  requireSized shape attr
  let boxes ← boxesOf refs attr v
  let b ← margined inside (← combined inside v boxes)
  modify (·.setBox (if inside then b else circumscribed shape b))

/-- Place the shape by a list of references in an attribute, if it is there. -/
def encloseBy (refs : Referrer α) (shape : Shape) (inside : Bool) (attr : String) :
    Edit Failure Unit := do
  match ← take attr with
  | none => return
  | some v => enclose refs shape inside attr v

/-- A size changed by the amounts behind a reference. -/
def adjusted (v : String) (size : Point α) : List String → Edit Failure (Point α)
  | [] => return size
  | [d] => do
    let d : Length α ← orFail "wh" (parseDelta d)
    return ⟨d.adjust size.x, d.adjust size.y⟩
  | [dw, dh] => do
    let dw : Length α ← orFail "wh" (parseDelta dw)
    let dh : Length α ← orFail "wh" (parseDelta dh)
    return ⟨dw.adjust size.x, dh.adjust size.y⟩
  | _ => failOn "wh" (.manyAdjustments v)

/-- Read a size: `w h`, or a reference with adjustments. -/
def parseSize (refs : Referrer α) (v : String) : Edit Failure (Point α) :=
  if !isRef v then orFail "wh" (Numbers.parsePair v)
  else do
    let ref : Ref α ← orFail "wh" (Ref.parse v)
    require ref.spot.isImplied "wh" (.locatedSize v)
    let b ← boxOf refs (ref.target.getD "")
    adjusted v (extentOf b) ref.args

/-- Settle the size given by `wh`. -/
def sizeByPair (refs : Referrer α) (shape : Shape) : Edit Failure Unit := do
  match ← take "wh" with
  | none => return
  | some v =>
    requireSized shape "wh"
    let size ← parseSize refs v
    modify (setSize shape size.x size.y)

/-- A size changed by an amount. -/
def grown (attr : String) (d : Option String) (size : α) : Edit Failure α :=
  match d with
  | none => pure size
  | some d => do
    let l : Length α ← orFail attr (parseDelta d)
    return size + l.of size

variable (α) in
/-- Change the size by `dw` and `dh`. -/
def sizeByDelta (shape : Shape) : Edit Failure Unit := do
  let dw ← take "dw"
  let dh ← take "dh"
  if dw.isNone && dh.isNone then return
  requireSized shape "dw"
  let size : Option α × Option α ← orFail "dw" (sizeOf (← get) shape)
  let w ← grown "dw" dw (size.1.getD zero)
  let h ← grown "dh" dh (size.2.getD zero)
  modify (setSize shape w h)

/-- Settle the size of the element. -/
def sizes (refs : Referrer α) (shape : Shape) : Edit Failure Unit := do
  encloseBy refs shape false "surround"
  encloseBy refs shape true "inside"
  sizeByPair refs shape
  sizeByDelta α shape

/-! ## Places -/

/-- The point that a value without a side refers to. -/
def pointOf (refs : Referrer α) (attr : String) (ref : Ref α) (implied : Loc) :
    Edit Failure (Point α) := do
  match ref.target with
  | none => orFail attr ref.pair
  | some t =>
    let p := ref.pointOn implied (← boxOf refs t)
    let d ← orFail attr ref.offset
    return ⟨p.x + d.x, p.y + d.y⟩

/-- Which location of the element goes where. -/
def goal (refs : Referrer α) (attr v : String) (loc : Loc) : Edit Failure (Loc × Point α) := do
  let ref : Ref α ← orFail attr (Ref.parse v)
  match ref.spot with
  | .beside side =>
    let b ← boxOf refs (ref.target.getD "")
    let gap := (← orFail attr ref.offset).x
    match side with
    | .right =>
      let p := b.locate .right
      return (.left, ⟨p.x + gap, p.y⟩)
    | .left =>
      let p := b.locate .left
      return (.right, ⟨p.x - gap, p.y⟩)
    | .below =>
      let p := b.locate .bottom
      return (.top, ⟨p.x, p.y + gap⟩)
    | .above =>
      let p := b.locate .top
      return (.bottom, ⟨p.x, p.y - gap⟩)
  | _ => return (loc, ← pointOf refs attr ref loc)

/-- Store a coordinate that is known. -/
def setIfKnown (name : String) (v : Option α) (el : Element) : Element :=
  match v with
  | some v => el.setNumber name v
  | none => el

/-- The start of a span, known or derived. -/
def startOf (s : Span α) : Option α := (s.range?.map (·.1)).or s.lo

/-- The middle of a span, known or derived. -/
def middleOf (s : Span α) : Option α := (s.range?.map fun (a, b) => (a + b) / two).or s.mid

/-- Put a location of an element that is drawn by coordinates at a point, by moving all of them. -/
def placeDrawn (attr : String) (l : Loc) (p : Point α) : Edit Failure Unit := do
  match ← orFail attr ((← get).box? : Except Fault (Option (Box α))) with
  | none => failOn attr (.noGeometry (← get).name)
  | some b =>
    let b := b.normalized
    let e : Extent α := { x := { size := some b.width }, y := { size := some b.height } }
    let moved := ((e.setLoc l p).box?).getD Box.origin
    editing attr (Element.translate (moved.x1 - b.x1) (moved.y1 - b.y1))

/-- A sized shape with a location at a point. Without a complete size it gets the coordinates that the known
dimensions allow. -/
def setExtent (shape : Shape) (e : Extent α) (el : Element) : Element :=
  match e.box? with
  | some b => el.setBox b
  | none =>
    if shape == .box then setIfKnown "y" (startOf e.y) (setIfKnown "x" (startOf e.x) el)
    else setIfKnown "cy" (middleOf e.y) (setIfKnown "cx" (middleOf e.x) el)

/-- Put a location of a sized shape at a point. -/
def placeSized (shape : Shape) (attr : String) (l : Loc) (p : Point α) : Edit Failure Unit := do
  let size : Option α × Option α ← orFail attr (sizeOf (← get) shape)
  let e : Extent α := { x := { size := size.1 }, y := { size := size.2 } }
  modify (setExtent shape (e.setLoc l p))

/-- Put a location of the element at a point. -/
def place (shape : Shape) (attr : String) (l : Loc) (p : Point α) : Edit Failure Unit :=
  match shape with
  | .point => modify fun el => (el.setNumber "x" p.x).setNumber "y" p.y
  | .line | .points | .path => placeDrawn attr l p
  | .box | .circle | .ellipse => placeSized shape attr l p

/-- Settle one end of a line. -/
def placeEnd (refs : Referrer α) (attr nx ny : String) : Edit Failure Unit := do
  match ← take attr with
  | none => return
  | some v =>
    let ref : Ref α ← orFail attr (Ref.parse v)
    let p ← pointOf refs attr ref .center
    modify fun el => (el.setNumber nx p.x).setNumber ny p.y

variable (α) in
/-- The value of `dx` or `dy`, zero when it is missing. -/
def shiftOf (attr : String) : Edit Failure α := do
  match ← take attr with
  | none => return zero
  | some v =>
    match ← orFail attr (Numbers.parse v) with
    | [x] => return x
    | _ => failOn attr (.notSingle v)

/-- Settle both ends of a line. -/
def placeEnds (refs : Referrer α) (shape : Shape) : Edit Failure Unit :=
  if shape == .line then do
    placeEnd refs "xy1" "x1" "y1"
    placeEnd refs "xy2" "x2" "y2"
  else pure ()

/-- The location of the element that `xy` places, its upper left corner unless another is given. -/
def ownLoc : Edit Failure Loc := do
  match ← take "xy-loc" with
  | none => return .topLeft
  | some v => orFail "xy-loc" (Loc.parse (Text.trim v))

/-- Place a location of the element by a position value. -/
def placeBy (refs : Referrer α) (shape : Shape) (attr v : String) (loc : Loc) :
    Edit Failure Unit := do
  let g ← goal refs attr v loc
  place shape attr g.1 g.2

/-- Place the element by its middle or by a location; not by both. -/
def placeByEither (refs : Referrer α) (shape : Shape) (loc : Loc) :
    (cxy xy : Option String) → Edit Failure Unit
  | none, none => pure ()
  | some _, some _ => failOn "xy" .exclusive
  | some v, none => placeBy refs shape "cxy" v .center
  | none, some v => placeBy refs shape "xy" v loc

/-- Settle the place of the element. -/
def locate (refs : Referrer α) (shape : Shape) : Edit Failure Unit := do
  placeEnds refs shape
  let loc ← ownLoc
  let cxy ← take "cxy"
  let xy ← take "xy"
  placeByEither refs shape loc cxy xy
  let dx ← shiftOf α "dx"
  let dy ← shiftOf α "dy"
  editing "dx" (Element.translate dx dy)

/-- The element with its positional attributes turned into native geometry. -/
def resolve (refs : Referrer α) (el : Element) : Except Failure Element :=
  match el.shape? with
  | none => .ok el
  | some shape =>
    if !has el then .ok el
    else
      match ((do sizes refs shape; locate refs shape) : Edit Failure Unit).run el with
      | (.ok (), el) => .ok el
      | (.error f, _) => .error f

end DiagramMarkup.Position
