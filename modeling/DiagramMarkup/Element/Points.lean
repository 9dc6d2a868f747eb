import DiagramMarkup.Geometry.Numbers

/-!
# Point lists

The corner points of a polygon as written in its `points` attribute.
-/

namespace DiagramMarkup.Points

variable {α : Type} [Scalar α]

/-- Coordinates taken two by two. -/
def pairUp : List α → Option (List (Point α))
  | [] => some []
  | [_] => none
  | x :: y :: rest => (pairUp rest).map (⟨x, y⟩ :: ·)

/-- Read a list of points. -/
def parse (s : String) : Except Fault (List (Point α)) := do
  match pairUp (← Numbers.parse s) with
  | some ps => return ps
  | none => throw (.oddPoints s)

/-- Write a list of points. -/
def text (ps : List (Point α)) : String :=
  ", ".intercalate (ps.map fun p => Scalar.fixed p.x ++ " " ++ Scalar.fixed p.y)

/-- The smallest box around points. -/
def box? : List (Point α) → Option (Box α)
  | [] => none
  | p :: ps => some (ps.foldl (fun b q => b.union (Box.ofPoint q.x q.y)) (Box.ofPoint p.x p.y))

end DiagramMarkup.Points
