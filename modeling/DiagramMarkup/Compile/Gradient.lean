import DiagramMarkup.Compile.Siblings
import DiagramMarkup.Position.Ref

/-!
# Gradients

Gradient definitions may be written short: `stops` lists colours, `dir` is an angle in degrees, and `length` is the
part of the shape that the gradient covers.
-/

namespace DiagramMarkup.Gradient

open Compile

/-- A colour at an offset. -/
structure Stop where
  color : String
  offset : String

/-- Is this a number, perhaps a percentage? -/
def isOffset (s : String) : Bool := (Number.read? (Text.dropEnd "%" s)).isSome

/-- The part before the last blank or tab, and the part behind it. -/
def splitLast (s : String) : Option (String × String) :=
  let isGap := fun (c : Char) => c == ' ' || c == '\t'
  let back := s.toList.reverse
  match back.dropWhile (!isGap ·) with
  | [] => none
  | _ :: before => some (String.ofList before.reverse, String.ofList (back.takeWhile (!isGap ·)).reverse)

/-- One stop; a number at its end is the offset, unless it belongs to a list of numbers. -/
def Stop.parse (s fallback : String) : Stop :=
  match splitLast s with
  | none => ⟨s, fallback⟩
  | some (before, tail) =>
    let color := Text.trim before
    if !Text.endsWith "," color && isOffset tail then ⟨color, tail⟩ else ⟨s, fallback⟩

/-- Read `red; blue 50%; green`. Stops without an offset are spread evenly. -/
def parseStops (s : String) : List Stop :=
  let parts := ((Text.splitAt ';' s).map Text.trim).filter (· != "")
  let last := parts.length - 1
  parts.zipIdx.map fun (p, i) =>
    let share : Float := if last == 0 then 0 else Number.ofInt i / Number.ofInt last
    .parse p (Number.fixedText (share * 100) ++ "%")

/-- The element of a stop. -/
def Stop.element (s : Stop) : Element :=
  .ofAttrs "stop" [("offset", s.offset), ("stop-color", s.color)]

/-- The ends of a linear gradient through the middle of the shape. -/
def setEnds (el : Element) (degrees length : Float) : Element :=
  let angle := degrees * Number.pi / 180
  let dx := Float.cos angle * length / 2
  let dy := Float.sin angle * length / 2
  (((el.setNumber "x1" (0.5 - dx)).setNumber "y1" (0.5 - dy)).setNumber "x2" (0.5 + dx)).setNumber
    "y2" (0.5 + dy)

/-- The part of the shape that the gradient covers, all of it unless a length is given. -/
def coverage (el : Element) : Option String → Compile Float
  | none => pure 1
  | some v => (Length.of · 1) <$> orFail el "length" (Position.parseDelta v)

/-- The angle of the gradient, zero unless it is given. -/
def degreesOf (el : Element) : Option String → Compile Float
  | none => pure 0
  | some d => readNumber el "dir" d

/-- The gradient with the geometry that its angle and its length give. -/
def shaped (el : Element) (dir length : Option String) : Compile Element := do
  let covered ← coverage el length
  if el.name == "linearGradient" && (dir.isSome || length.isSome) then
    return setEnds el (← degreesOf el dir) covered
  else if el.name == "radialGradient" && length.isSome then
    return el.setNumber "r" (covered / 2)
  else return el

/-- Draw a gradient definition. -/
def draw (inside : Inside) (el : Element) (children : List Node) : Compile Drawing := do
  let stops := parseStops (el.attrs.value "stops")
  let el ← shaped (el.eraseAll ["stops", "dir", "length"]) (el.get? "dir") (el.get? "length")
  setCurrent el
  stops.forM fun s => observe s.element
  let inner ← inside.of el children el.order
  register el none
  observe el
  return { events := Event.wrap el (stops.map (fun s => .empty s.element) ++ inner.events) }

end DiagramMarkup.Gradient
