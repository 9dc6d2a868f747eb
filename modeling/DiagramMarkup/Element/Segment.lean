import DiagramMarkup.Element.Path

/-!
# Segments of a path

Path data as a list of drawing steps, and the box of what they draw. Corner points and control points are
taken as they are; arcs are sampled along their length.
-/

namespace DiagramMarkup.Path

open Scalar

/-- One drawing step. `rel` tells that coordinates count from the current point. -/
inductive Segment (α : Type) where
  | move (rel : Bool) (p : Point α)
  | line (rel : Bool) (p : Point α)
  | horizontal (rel : Bool) (x : α)
  | vertical (rel : Bool) (y : α)
  | cubic (rel : Bool) (c1 c2 p : Point α)
  | smoothCubic (rel : Bool) (c2 p : Point α)
  | quadratic (rel : Bool) (c p : Point α)
  | smoothQuadratic (rel : Bool) (p : Point α)
  | arc (rel : Bool) (rx ry tilt : α) (large sweep : Bool) (p : Point α)
  | close
deriving Repr

/-- How many numbers follow a command letter. -/
def arity (c : Char) : Nat :=
  match c with
  | 'M' | 'm' | 'L' | 'l' | 'T' | 't' => 2
  | 'H' | 'h' | 'V' | 'v' => 1
  | 'C' | 'c' => 6
  | 'S' | 's' | 'Q' | 'q' => 4
  | 'A' | 'a' => 7
  | _ => 0

/-- Commands in small letters are relative. -/
def isRelative (c : Char) : Bool := 'a' ≤ c && c ≤ 'z'

/-- The command of the numbers that follow a complete one without a letter. -/
def following (c : Char) : Char :=
  match c with
  | 'M' => 'L'
  | 'm' => 'l'
  | c => c

variable {α : Type} [Scalar α]

/-- The segment of a command with its numbers. -/
def Segment.ofArgs? (c : Char) (args : List α) : Option (Segment α) :=
  let rel := isRelative c
  match c, args with
  | 'M', [x, y] | 'm', [x, y] => some (.move rel ⟨x, y⟩)
  | 'L', [x, y] | 'l', [x, y] => some (.line rel ⟨x, y⟩)
  | 'T', [x, y] | 't', [x, y] => some (.smoothQuadratic rel ⟨x, y⟩)
  | 'H', [x] | 'h', [x] => some (.horizontal rel x)
  | 'V', [y] | 'v', [y] => some (.vertical rel y)
  | 'C', [a, b, c, d, x, y] | 'c', [a, b, c, d, x, y] => some (.cubic rel ⟨a, b⟩ ⟨c, d⟩ ⟨x, y⟩)
  | 'S', [c, d, x, y] | 's', [c, d, x, y] => some (.smoothCubic rel ⟨c, d⟩ ⟨x, y⟩)
  | 'Q', [c, d, x, y] | 'q', [c, d, x, y] => some (.quadratic rel ⟨c, d⟩ ⟨x, y⟩)
  | 'A', [rx, ry, t, l, s, x, y] | 'a', [rx, ry, t, l, s, x, y] =>
    some (.arc rel rx ry t (l != zero) (s != zero) ⟨x, y⟩)
  | _, _ => none

/-- How far the reading of a segment has come. -/
inductive Progress (α : Type) where
  /-- Nothing has been read. -/
  | begin
  /-- The last segment, of this command, is complete. -/
  | complete (c : Char)
  /-- The command waits for numbers behind these, which stand last first. -/
  | within (c : Char) (args : List α)

/-- Take one more number for a command. -/
def feed (c : Char) (args : List α) (v : α) : Progress α × Option (Segment α) :=
  let args := v :: args
  if args.length < arity c then (.within c args, none)
  else (.complete (following c), Segment.ofArgs? c args.reverse)

/-- The segments of tokens, in which all repeat groups have been written out. -/
def segmentsFrom (d : String) : Progress α → List (Token α) → Except Fault (List (Segment α))
  | .within c _, [] => .error (.truncated c)
  | _, [] => .ok []
  | .within c _, .command _ :: _ => .error (.truncated c)
  | _, .command c :: ts =>
    if c == 'r' || c == '[' || c == ']' then .error .unexpandedRepeat
    else if c == 'Z' || c == 'z' then (segmentsFrom d (.complete c) ts).map (.close :: ·)
    else segmentsFrom d (.within c []) ts
  | .begin, .number _ :: _ => .error (.noCommand d)
  | .complete c, .number v :: ts =>
    if arity c == 0 then .error (.numberAfter c)
    else
      let (next, s) := feed c [] v
      (segmentsFrom d next ts).map (s.toList ++ ·)
  | .within c args, .number v :: ts =>
    let (next, s) := feed c args v
    (segmentsFrom d next ts).map (s.toList ++ ·)

/-- The segments of path data. -/
def segments (d : String) : Except Fault (List (Segment α)) := do
  segmentsFrom d .begin (← tokenize d)

/-! ## Extent -/

/-- The number of parts an arc is cut into. -/
def arcSteps : Nat := 32

/-- The angle from one vector to another. -/
def angleBetween (u v : Point α) : α := atan2 (u.x * v.y - u.y * v.x) (u.x * v.x + u.y * v.y)

/-- Points along an elliptical arc. The centre is found from the two end points; radii too small for
them are scaled up. -/
def sampleArc (p : Point α) (rx ry tilt : α) (large sweep : Bool) (q : Point α) : List (Point α) :=
  let rx := abs rx
  let ry := abs ry
  if rx == zero || ry == zero || (p.x == q.x && p.y == q.y) then [q]
  else
    let phi := tilt * pi / ofInt 180
    let cosPhi := cos phi
    let sinPhi := sin phi
    let dx := (p.x - q.x) / two
    let dy := (p.y - q.y) / two
    let x := cosPhi * dx + sinPhi * dy
    let y := -sinPhi * dx + cosPhi * dy
    let lambda := x * x / (rx * rx) + y * y / (ry * ry)
    let s := if one < lambda then sqrt lambda else one
    let rx := if one < lambda then rx * s else rx
    let ry := if one < lambda then ry * s else ry
    let num := rx * rx * ry * ry - rx * rx * y * y - ry * ry * x * x
    let den := rx * rx * y * y + ry * ry * x * x
    let coef := if den != zero && zero < num then sqrt (num / den) else zero
    let coef := if large == sweep then -coef else coef
    let cx := coef * rx * y / ry
    let cy := -coef * ry * x / rx
    let centre : Point α :=
      ⟨cosPhi * cx - sinPhi * cy + (p.x + q.x) / two, sinPhi * cx + cosPhi * cy + (p.y + q.y) / two⟩
    let from' : Point α := ⟨(x - cx) / rx, (y - cy) / ry⟩
    let to' : Point α := ⟨(-x - cx) / rx, (-y - cy) / ry⟩
    let theta := angleBetween ⟨one, zero⟩ from'
    let delta := angleBetween from' to'
    let delta :=
      if !sweep && zero < delta then delta - two * pi
      else if sweep && delta < zero then delta + two * pi
      else delta
    (List.range (arcSteps + 1)).map fun (k : Nat) =>
      let t := theta + delta * ofInt k / ofInt arcSteps
      let a := rx * cos t
      let b := ry * sin t
      ⟨cosPhi * a - sinPhi * b + centre.x, sinPhi * a + cosPhi * b + centre.y⟩

/-- Where the pen is, and where the current figure began. -/
structure Pen (α : Type) where
  cur : Point α
  start : Point α

/-- A point given relative to another. -/
def shiftBy (o p : Point α) : Point α := ⟨o.x + p.x, o.y + p.y⟩

/-- The pen after a segment, and the points that decide about the extent of the segment. -/
def draw (pen : Pen α) (s : Segment α) : Pen α × List (Point α) :=
  let origin := fun (rel : Bool) => if rel then pen.cur else ⟨zero, zero⟩
  match s with
  | .move rel p =>
    let q := shiftBy (origin rel) p
    (⟨q, q⟩, [q])
  | .line rel p | .smoothQuadratic rel p =>
    let q := shiftBy (origin rel) p
    ({ pen with cur := q }, [q])
  | .horizontal rel x =>
    let q : Point α := ⟨if rel then pen.cur.x + x else x, pen.cur.y⟩
    ({ pen with cur := q }, [q])
  | .vertical rel y =>
    let q : Point α := ⟨pen.cur.x, if rel then pen.cur.y + y else y⟩
    ({ pen with cur := q }, [q])
  | .cubic rel c1 c2 p =>
    let o := origin rel
    let q := shiftBy o p
    ({ pen with cur := q }, [shiftBy o c1, shiftBy o c2, q])
  | .smoothCubic rel c p | .quadratic rel c p =>
    let o := origin rel
    let q := shiftBy o p
    ({ pen with cur := q }, [shiftBy o c, q])
  | .arc rel rx ry tilt large sweep p =>
    let q := shiftBy (origin rel) p
    ({ pen with cur := q }, sampleArc pen.cur rx ry tilt large sweep q ++ [q])
  | .close => ({ pen with cur := pen.start }, [])

/-- Enlarge a box to hold a point. -/
def include? (b : Option (Box α)) (p : Point α) : Option (Box α) :=
  match b with
  | none => some (Box.ofPoint p.x p.y)
  | some b => some (b.union (Box.ofPoint p.x p.y))

/-- The box of segments drawn from a pen position on. -/
def boundsFrom : Pen α → Option (Box α) → List (Segment α) → Option (Box α)
  | _, b, [] => b
  | pen, b, s :: ss =>
    let (pen, ps) := draw pen s
    boundsFrom pen (ps.foldl include? b) ss

/-- The box of path data, if it draws anything. -/
def box? (d : String) : Except Fault (Option (Box α)) :=
  (segments d).map (boundsFrom ⟨⟨zero, zero⟩, ⟨zero, zero⟩⟩ none)

end DiagramMarkup.Path
