import DiagramMarkup.Geometry.Anchor

/-!
# Partly known extents

Along each axis an element may be given by any two of its lower end, upper end, centre and size. An
`Extent` collects what is known and derives the box when it is determined.
-/

namespace DiagramMarkup

/-- What is known of an extent along one axis. -/
structure Span (α : Type) where
  lo : Option α := none
  hi : Option α := none
  mid : Option α := none
  size : Option α := none
deriving Repr

/-- The two ends, from any two known values. -/
def Span.range? {α : Type} [Scalar α] (s : Span α) : Option (α × α) :=
  match s.lo, s.hi, s.mid, s.size with
  | some lo, some hi, _, _ => some (lo, hi)
  | some lo, none, _, some size => some (lo, lo + size)
  | none, some hi, _, some size => some (hi - size, hi)
  | none, none, some c, some size => some (c - size / Scalar.two, c + size / Scalar.two)
  | some lo, none, some c, none => some (lo, Scalar.two * c - lo)
  | none, some hi, some c, none => some (Scalar.two * c - hi, hi)
  | _, _, _, _ => none

/-- What is known of an element's box, and how far it is moved afterwards. -/
structure Extent (α : Type) where
  x : Span α := {}
  y : Span α := {}
  dx : Option α := none
  dy : Option α := none
deriving Repr

namespace Extent

variable {α : Type} [Scalar α]

/-- Put a location of the box at a point: it fixes an end or the centre along each axis. -/
def setLoc (p : Extent α) (l : Loc) (pt : Point α) : Extent α :=
  { p with
    x := if l.onLeft then { p.x with lo := some pt.x }
      else if l.onRight then { p.x with hi := some pt.x }
      else { p.x with mid := some pt.x }
    y := if l.onTop then { p.y with lo := some pt.y }
      else if l.onBottom then { p.y with hi := some pt.y }
      else { p.y with mid := some pt.y } }

/-- The box, when both axes are determined. -/
def box? (p : Extent α) : Option (Box α) :=
  match p.x.range?, p.y.range? with
  | some (x1, x2), some (y1, y2) =>
    some ((⟨x1, y1, x2, y2⟩ : Box α).translate (p.dx.getD Scalar.zero) (p.dy.getD Scalar.zero))
  | _, _ => none

end Extent

end DiagramMarkup
