import DiagramMarkup.Number.Scalar

/-!
# Boxes

Axis-aligned rectangles given by two corners. The corners need not be sorted: the box of a line keeps
its direction, so width and height are signed. `normalized` sorts them.
-/

namespace DiagramMarkup

/-- A point of the plane; `y` grows downward. -/
structure Point (α : Type) where
  x : α
  y : α
deriving Repr, BEq

/-- A rectangle given by two opposite corners, in any order. -/
structure Box (α : Type) where
  x1 : α
  y1 : α
  x2 : α
  y2 : α
deriving Repr, BEq

namespace Box

open Scalar

variable {α : Type} [Scalar α]

/-- The box with a top left corner and a size. -/
def ofSize (x y w h : α) : Box α := ⟨x, y, x + w, y + h⟩

/-- The empty box at a point. -/
def ofPoint (x y : α) : Box α := ⟨x, y, x, y⟩

/-- The box of extent zero at the origin. -/
def origin : Box α := ⟨zero, zero, zero, zero⟩

/-- Signed width. -/
def width (b : Box α) : α := b.x2 - b.x1

/-- Signed height. -/
def height (b : Box α) : α := b.y2 - b.y1

/-- The middle of the box. -/
def center (b : Box α) : Point α := ⟨(b.x1 + b.x2) / two, (b.y1 + b.y2) / two⟩

/-- The same rectangle with its corners sorted. -/
def normalized (b : Box α) : Box α :=
  ⟨least b.x1 b.x2, least b.y1 b.y2, greatest b.x1 b.x2, greatest b.y1 b.y2⟩

/-- The smallest sorted box that contains both. -/
def union (b c : Box α) : Box α :=
  let n := b.normalized
  let m := c.normalized
  ⟨least n.x1 m.x1, least n.y1 m.y1, greatest n.x2 m.x2, greatest n.y2 m.y2⟩

/-- The common part of two boxes, unless they are apart. Boxes that touch have a common part. -/
def intersect? (b c : Box α) : Option (Box α) :=
  let n := b.normalized
  let m := c.normalized
  let r : Box α :=
    ⟨greatest n.x1 m.x1, greatest n.y1 m.y1, least n.x2 m.x2, least n.y2 m.y2⟩
  if r.width < zero || r.height < zero then none else some r

/-- Move each side of the sorted box outward; negative amounts shrink it. -/
def expandSides (b : Box α) (top right bottom left : α) : Box α :=
  let n := b.normalized
  ⟨n.x1 - left, n.y1 - top, n.x2 + right, n.y2 + bottom⟩

/-- Grow the box by `dx` left and right and by `dy` above and below. -/
def expand (b : Box α) (dx dy : α) : Box α := b.expandSides dy dx dy dx

/-- Move the box. -/
def translate (b : Box α) (dx dy : α) : Box α := ⟨b.x1 + dx, b.y1 + dy, b.x2 + dx, b.y2 + dy⟩

/-- Multiply all coordinates. -/
def scale (b : Box α) (s : α) : Box α := ⟨b.x1 * s, b.y1 * s, b.x2 * s, b.y2 * s⟩

/-- Does the point lie strictly inside? -/
def contains (b : Box α) (x y : α) : Bool :=
  let n := b.normalized
  n.x1 < x && x < n.x2 && n.y1 < y && y < n.y2

/-- The smallest sorted box that contains all boxes of the list. -/
def unionAll? : List (Box α) → Option (Box α)
  | [] => none
  | b :: bs => some (bs.foldl union b.normalized)

/-- The common part of all boxes of the list. -/
def intersectAll? : List (Box α) → Option (Box α)
  | [] => none
  | b :: bs => bs.foldlM intersect? b.normalized

/-- The text of a box in messages and dumps. -/
def text (b : Box α) : String :=
  "(" ++ ", ".intercalate [fixed b.x1, fixed b.y1, fixed b.x2, fixed b.y2] ++ ")"

@[simp] theorem translate_width (b : Box α) (dx dy : α) :
    (b.translate dx dy).width = b.x2 + dx - (b.x1 + dx) := rfl

@[simp] theorem unionAll?_nil : unionAll? ([] : List (Box α)) = none := rfl

@[simp] theorem intersectAll?_nil : intersectAll? ([] : List (Box α)) = none := rfl

end Box

end DiagramMarkup
