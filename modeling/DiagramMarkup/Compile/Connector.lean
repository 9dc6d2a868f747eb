import DiagramMarkup.Compile.Basic
import DiagramMarkup.Position.Endpoint
import DiagramMarkup.Route.Orthogonal

/-!
# Connectors

A line or polyline with `start` and `end` connects two places. Lines are straight, polylines are routed around the
boxes they connect.
-/

namespace DiagramMarkup.Connector

open Position

/-- How far routed segments keep away from the connected boxes. -/
def clearance : Float := 3

/-- The middle of the edge of a box that is nearest to a point; of equals the first counts, clockwise from the
top. -/
def nearestEdge (b : Box Float) (p : Point Float) : Edge :=
  let dist := fun (e : Edge) =>
    let q := b.locate e.loc
    Number.hypot (q.x - p.x) (q.y - p.y)
  let pick := fun (best : Edge × Float) (e : Edge) =>
    let d := dist e
    if d < best.2 then (e, d) else best
  ([Edge.top, .right, .bottom, .left].foldl pick (.top, Number.infinity false)).1

/-- Settle an end that is given without an anchor: it goes to the edge of its box nearest to the other end. -/
def settle (e other : Endpoint Float) : Route.End Float :=
  match e with
  | .point p => { point := p }
  | .anchor b p dir => { point := p, dir := dir, box := some b }
  | .box b =>
    let goal := match other with
      | .point p | .anchor _ p _ => p
      | .box c => c.center
    let edge := nearestEdge b goal
    { point := b.locate edge.loc, dir := some edge.dir, box := some b }

/-- Where the corner of a route is to stand, if it is given. -/
def cornerOffset (el : Element) : Except Failure (Option (Length Float)) :=
  match el.get? "corner-offset" with
  | none => pure none
  | some v => some <$> Compile.checked el "corner-offset" (parseDelta v)

/-- A connector between two ends, as native geometry. -/
def joined (el : Element) (s e : Endpoint Float) (offset : Option (Length Float)) : Element :=
  let bare := el.eraseAll ["start", "end", "corner-offset"]
  let a := settle s e
  let b := settle e s
  if el.name == "polyline" then
    bare.set "points" (Points.text (Route.route a b ⟨clearance, offset⟩))
  else
    (((bare.setNumber "x1" a.point.x).setNumber "y1" a.point.y).setNumber "x2"
      b.point.x).setNumber "y2" b.point.y

/-- Is this an element that can connect? -/
def isConnector (el : Element) : Bool := el.name == "line" || el.name == "polyline"

/-- Turn the ends of a connector into native geometry. -/
def connect (refs : Referrer Float) (el : Element) : Except Failure Element :=
  if !isConnector el then pure el
  else
    match el.get? "start", el.get? "end" with
    | none, none => pure el
    | some start, some stop => do
      let s ← Endpoint.resolve refs (some el) "start" start
      let e ← Endpoint.resolve refs (some el) "end" stop
      let offset ← cornerOffset el
      return joined el s e offset
    | _, _ => throw (.parse (some el) "" .halfConnector)

end DiagramMarkup.Connector
