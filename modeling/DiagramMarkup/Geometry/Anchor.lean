import DiagramMarkup.Fault
import DiagramMarkup.Geometry.Box
import DiagramMarkup.Text.Split

/-!
# Anchors

Named places on a box: nine locations, or a point along one of the four edges at a length that is
absolute or a share of the edge.
-/

namespace DiagramMarkup

/-- An axis-aligned direction. -/
inductive Dir where
  | up
  | right
  | down
  | left
deriving Repr, DecidableEq

/-- The name of a direction. -/
def Dir.name : Dir → String
  | .up => "up"
  | .right => "right"
  | .down => "down"
  | .left => "left"

/-- Does the direction run along the x axis? -/
def Dir.horizontal : Dir → Bool
  | .left | .right => true
  | .up | .down => false

/-- The unit vector of a direction. -/
def Dir.unit {α : Type} [Scalar α] : Dir → Point α
  | .up => ⟨Scalar.zero, Scalar.ofInt (-1)⟩
  | .down => ⟨Scalar.zero, Scalar.one⟩
  | .left => ⟨Scalar.ofInt (-1), Scalar.zero⟩
  | .right => ⟨Scalar.one, Scalar.zero⟩

/-- One side of a box. -/
inductive Edge where
  | top
  | right
  | bottom
  | left
deriving Repr, DecidableEq

/-- The short name of an edge. -/
def Edge.name : Edge → String
  | .top => "t"
  | .right => "r"
  | .bottom => "b"
  | .left => "l"

/-- The direction that leaves the box through the edge. -/
def Edge.dir : Edge → Dir
  | .top => .up
  | .right => .right
  | .bottom => .down
  | .left => .left

/-- One of the nine named places on a box. -/
inductive Loc where
  | topLeft
  | top
  | topRight
  | right
  | bottomRight
  | bottom
  | bottomLeft
  | left
  | center
deriving Repr, DecidableEq

namespace Loc

/-- The short name of a location. -/
def name : Loc → String
  | .topLeft => "tl"
  | .top => "t"
  | .topRight => "tr"
  | .right => "r"
  | .bottomRight => "br"
  | .bottom => "b"
  | .bottomLeft => "bl"
  | .left => "l"
  | .center => "c"

/-- The location with this name, short or long. -/
def ofName? : String → Option Loc
  | "tl" => some .topLeft
  | "t" | "top" => some .top
  | "tr" => some .topRight
  | "r" | "right" => some .right
  | "br" => some .bottomRight
  | "b" | "bottom" => some .bottom
  | "bl" => some .bottomLeft
  | "l" | "left" => some .left
  | "c" | "center" | "centre" => some .center
  | _ => none

/-- Read a location name. -/
def parse (s : String) : Except Fault Loc :=
  match ofName? s with
  | some l => .ok l
  | none => .error (.location s)

/-- The edge in whose middle the location lies. -/
def edge? : Loc → Option Edge
  | .top => some .top
  | .right => some .right
  | .bottom => some .bottom
  | .left => some .left
  | _ => none

/-- Does the location lie on the left side? -/
def onLeft : Loc → Bool
  | .topLeft | .left | .bottomLeft => true
  | _ => false

/-- Does the location lie on the right side? -/
def onRight : Loc → Bool
  | .topRight | .right | .bottomRight => true
  | _ => false

/-- Does the location lie on the upper side? -/
def onTop : Loc → Bool
  | .topLeft | .top | .topRight => true
  | _ => false

/-- Does the location lie on the lower side? -/
def onBottom : Loc → Bool
  | .bottomLeft | .bottom | .bottomRight => true
  | _ => false

theorem ofName?_name (l : Loc) : ofName? l.name = some l := by cases l <;> rfl

end Loc

/-- The location in the middle of an edge. -/
def Edge.loc : Edge → Loc
  | .top => .top
  | .right => .right
  | .bottom => .bottom
  | .left => .left

theorem Edge.edge?_loc (e : Edge) : e.loc.edge? = some e := by cases e <;> rfl

/-- The coordinates of a named location. -/
def Box.locate {α : Type} [Scalar α] (b : Box α) (l : Loc) : Point α :=
  let c := b.center
  match l with
  | .topLeft => ⟨b.x1, b.y1⟩
  | .top => ⟨c.x, b.y1⟩
  | .topRight => ⟨b.x2, b.y1⟩
  | .right => ⟨b.x2, c.y⟩
  | .bottomRight => ⟨b.x2, b.y2⟩
  | .bottom => ⟨c.x, b.y2⟩
  | .bottomLeft => ⟨b.x1, b.y2⟩
  | .left => ⟨b.x1, c.y⟩
  | .center => c

/-- An absolute offset, or a share of some size. -/
inductive Length (α : Type) where
  | absolute (value : α)
  | ratio (value : α)
deriving Repr

namespace Length

open Scalar

variable {α : Type} [Scalar α]

/-- Read `12.5` as absolute and `25%` as the ratio 0.25. -/
def parse (s : String) : Except Fault (Length α) :=
  let s := Text.trim s
  match Text.before? "%" s with
  | some v =>
    match read v with
    | .ok f => .ok (.ratio (f / ofInt 100))
    | .error why => .error (.length s v why)
  | none =>
    match read s with
    | .ok f => .ok (.absolute f)
    | .error why => .error (.length s s why)

/-- The place along the way from `start` to `stop`: an absolute length counts from the start, a
negative one from the end. -/
def between (l : Length α) (start stop : α) : α :=
  match l with
  | .ratio v => start + (stop - start) * v
  | .absolute v => if v < zero then stop + v else start + v

/-- Change `x` by the length: an absolute length is added, a ratio scales. -/
def adjust (l : Length α) (x : α) : α :=
  match l with
  | .ratio v => x * v
  | .absolute v => x + v

/-- The length relative to a size. -/
def of (l : Length α) (size : α) : α :=
  match l with
  | .ratio v => size * v
  | .absolute v => v

/-- The number in the length. -/
def value : Length α → α
  | .absolute v => v
  | .ratio v => v

/-- Is the length a share? -/
def isRatio : Length α → Bool
  | .absolute _ => false
  | .ratio _ => true

/-- The text of a length. -/
def text : Length α → String
  | .absolute v => fixed v
  | .ratio v => fixed (v * ofInt 100) ++ "%"

end Length

/-- A place on a box: a named location, or a point along an edge. -/
inductive Anchor (α : Type) where
  | named (loc : Loc)
  | along (edge : Edge) (offset : Length α)
deriving Repr

namespace Anchor

variable {α : Type} [Scalar α]

/-- Read `br`, `t:25%` or `l:-3`. -/
def parse (s : String) : Except Fault (Anchor α) :=
  match Text.cut ":" s with
  | none => (Loc.parse s).map .named
  | some (name, length) =>
    match Loc.parse name with
    | .error f => .error f
    | .ok l =>
      match l.edge? with
      | none => .error (.notEdge name)
      | some e => (Length.parse length).map (.along e)

/-- The coordinates of the anchor. Upper and lower edges run left to right, the others downward. -/
def point (a : Anchor α) (b : Box α) : Point α :=
  match a with
  | .named l => b.locate l
  | .along .top o => ⟨o.between b.x1 b.x2, b.y1⟩
  | .along .bottom o => ⟨o.between b.x1 b.x2, b.y2⟩
  | .along .left o => ⟨b.x1, o.between b.y1 b.y2⟩
  | .along .right o => ⟨b.x2, o.between b.y1 b.y2⟩

/-- The location that the anchor names. -/
def loc : Anchor α → Loc
  | .named l => l
  | .along e _ => e.loc

/-- The direction that leaves the box at the anchor, if it lies on one edge. -/
def dir? (a : Anchor α) : Option Dir := a.loc.edge?.map Edge.dir

end Anchor

end DiagramMarkup
