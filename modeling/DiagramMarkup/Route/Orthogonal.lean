import DiagramMarkup.Geometry.Anchor
import DiagramMarkup.Route.Search

/-!
# Orthogonal routes

A connector between two boxes made of horizontal and vertical pieces. Candidate corners form a grid: lines at
a clearance around both boxes, lines through the ends, and a midline in the gap between the boxes. Pieces
through the interior of a box are not used, every piece costs more than any detour, so that few corners win,
and pieces on a midline are cheap.
-/

namespace DiagramMarkup.Route

open Scalar

/-- One end of a connector. -/
structure End (α : Type) where
  point : Point α
  dir : Option Dir := none
  box : Option (Box α) := none

/-- How connectors run. -/
structure Style (α : Type) where
  /-- The distance that lines keep from the boxes. -/
  clearance : α
  /-- Where the midline lies in the gap, from the start's box on; in the middle by default. -/
  cornerOffset : Option (Length α) := none

variable {α : Type} [Scalar α]

/-- The sorted box of an end; an end without a box is a point. -/
def End.extent (e : End α) : Box α :=
  match e.box with
  | some b => b.normalized
  | none => Box.ofPoint e.point.x e.point.y

/-- A coordinate in the gap between two intervals, unless they overlap. -/
def midline? (aLo aHi bLo bHi : α) (off : Option (Length α)) : Option α :=
  let within := fun (lo hi : α) =>
    let sign : α := if hi < lo then ofInt (-1) else one
    match off with
    | none => (lo + hi) / two
    | some (.ratio v) => lo + (hi - lo) * v
    | some (.absolute v) => if v < zero then hi + sign * v else lo + sign * v
  if aHi < bLo then some (within aHi bLo)
  else if bHi < aLo then some (within aLo bHi)
  else none

/-- Does `q` lie strictly ahead of `p` in a direction? -/
def ahead (p : Point α) (d : Dir) (q : Point α) : Bool :=
  let dx := q.x - p.x
  let dy := q.y - p.y
  match d with
  | .up => dx == zero && dy < zero
  | .down => dx == zero && zero < dy
  | .left => dy == zero && dx < zero
  | .right => dy == zero && zero < dx

/-- Does the horizontal or vertical piece from `p` to `q` cross the interior of the box? -/
def blocked (p q : Point α) (b : Box α) : Bool :=
  if b.width ≤ zero || b.height ≤ zero then false
  else if p.y == q.y then
    b.y1 < p.y && p.y < b.y2 && greatest (least p.x q.x) b.x1 < least (greatest p.x q.x) b.x2
  else
    b.x1 < p.x && p.x < b.x2 && greatest (least p.y q.y) b.y1 < least (greatest p.y q.y) b.y2

/-! ## The grid -/

/-- Does `x` come strictly before `y`? What is no number comes first. -/
def before (x y : α) : Bool := (x != x && y == y) || x < y

/-- Put a coordinate into a sorted list, in front of its equals. -/
def insertCoord (x : α) : List α → List α
  | [] => [x]
  | y :: ys => if before y x then y :: insertCoord x ys else x :: y :: ys

/-- Coordinates in increasing order. -/
def sortCoords (xs : List α) : List α := xs.foldr insertCoord []

/-- Keep the first of equal neighbours. -/
def compact : List α → List α
  | [] => []
  | [x] => [x]
  | x :: y :: ys => if x == y then compact (x :: ys) else x :: compact (y :: ys)
termination_by xs => xs.length

/-- The lines of one axis: around both boxes, the midline, and lines through ends. -/
def coordinates (aLo aHi bLo bHi clearance : α) (mid : Option α) (ends : List α) : List α :=
  compact (sortCoords ([aLo - clearance, aHi + clearance, bLo - clearance, bHi + clearance] ++
    mid.toList ++ ends))

/-- Everything that decides about the route between two ends. -/
structure Plan (α : Type) where
  start : Point α
  startDir : Dir
  goal : Point α
  goalDir : Dir
  a : Box α
  b : Box α
  midX : Option α
  midY : Option α
  xs : List α
  ys : List α

/-- The plan for two ends with directions. -/
def plan (start goal : End α) (startDir goalDir : Dir) (style : Style α) : Plan α :=
  let a := start.extent
  let b := goal.extent
  let midX := midline? a.x1 a.x2 b.x1 b.x2 style.cornerOffset
  let midY := midline? a.y1 a.y2 b.y1 b.y2 style.cornerOffset
  let ends := [(start.point, startDir), (goal.point, goalDir)]
  { start := start.point
    startDir := startDir
    goal := goal.point
    goalDir := goalDir
    a := a
    b := b
    midX := midX
    midY := midY
    xs := coordinates a.x1 a.x2 b.x1 b.x2 style.clearance midX
      ((ends.filter (!·.2.horizontal)).map (·.1.x))
    ys := coordinates a.y1 a.y2 b.y1 b.y2 style.clearance midY
      ((ends.filter (·.2.horizontal)).map (·.1.y)) }

namespace Plan

/-- The distance from the first to the last of some sorted coordinates, added to `acc`. -/
def addSpan (acc : α) (xs : List α) : α :=
  match xs.head?, xs.getLast? with
  | some lo, some hi => acc + hi - lo
  | _, _ => acc

/-- The price of one piece, more than any detour on the grid. -/
def penalty (p : Plan α) : α :=
  match p.xs.head?, p.xs.getLast? with
  | some lo, some hi => two * addSpan (hi - lo) p.ys + one
  | _, _ => one

/-- The corners of the grid, row by row. -/
def corners (p : Plan α) : List (Point α) :=
  p.ys.flatMap fun y => p.xs.map fun x => ⟨x, y⟩

/-- Is the coordinate on the midline? -/
def onMidline (mid : Option α) (x : α) : Bool :=
  match mid with
  | some m => x == m
  | none => false

/-- The cost of a piece. -/
def cost (p : Plan α) (penalty : α) (u v : Point α) : α :=
  let l := abs (v.x - u.x) + abs (v.y - u.y)
  let cheap := (u.x == v.x && onMidline p.midX u.x) || (u.y == v.y && onMidline p.midY u.y)
  (if cheap then l / two else l) + penalty

/-- The graph of all pieces. Behind the corners stand the start and the goal. -/
def graph (p : Plan α) : Graph α :=
  let corners := p.corners.toArray
  let n := corners.size
  let penalty := p.penalty
  { size := n + 2
    cost? := fun u v =>
      match corners[u]?, corners[v]? with
      | some c, some d =>
        if u != v && (c.x == d.x || c.y == d.y) && !blocked c d p.a && !blocked c d p.b then
          some (p.cost penalty c d)
        else none
      | none, some d =>
        if u == n && ahead p.start p.startDir d && !blocked p.start d p.b then
          some (p.cost penalty p.start d)
        else none
      | some c, none =>
        if v == n + 1 && ahead p.goal p.goalDir c && !blocked p.goal c p.a then
          some (p.cost penalty c p.goal)
        else none
      | none, none =>
        if u == n && v == n + 1 && ahead p.start p.startDir p.goal &&
            ahead p.goal p.goalDir p.start then
          some (p.cost penalty p.start p.goal)
        else none }

/-- The point of a node. -/
def pointOf (p : Plan α) (corners : Array (Point α)) (i : Nat) : Point α :=
  if h : i < corners.size then corners[i]
  else if i == corners.size then p.start
  else p.goal

/-- The corner points of the cheapest path, if there is one. -/
def path? (p : Plan α) : Option (List (Point α)) :=
  let corners := p.corners.toArray
  (p.graph.shortest? corners.size (corners.size + 1)).map (·.map (p.pointOf corners))

end Plan

/-! ## Results -/

/-- Are three points on one horizontal or vertical line? -/
def inLine (a b c : Point α) : Bool :=
  (a.x == b.x && b.x == c.x) || (a.y == b.y && b.y == c.y)

/-- Add a point behind points that stand last first: repeated points and inner points of straight runs are
dropped. -/
def addCorner (out : List (Point α)) (p : Point α) : List (Point α) :=
  match out with
  | [] => [p]
  | [b] => if b.x == p.x && b.y == p.y then [b] else [p, b]
  | b :: a :: rest =>
    if b.x == p.x && b.y == p.y then b :: a :: rest
    else if inLine a b p then p :: a :: rest
    else p :: b :: a :: rest

/-- The corner points without repetitions and straight runs. -/
def simplify (ps : List (Point α)) : List (Point α) := (ps.foldl addCorner []).reverse

/-- The points of a connector. Without directions, or when no path is found, it is a straight line. -/
def route (start goal : End α) (style : Style α) : List (Point α) :=
  let direct := [start.point, goal.point]
  match start.dir, goal.dir with
  | some d, some e =>
    match (plan start goal d e style).path? with
    | some ps => simplify ps
    | none => direct
  | _, _ => direct

end DiagramMarkup.Route
