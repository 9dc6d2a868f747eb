import DiagramMarkup.Compile.Connector
import DiagramMarkup.Compile.Label
import DiagramMarkup.Compile.Siblings
import DiagramMarkup.Position.Resolve

/-!
# Drawn elements

Shapes, and the figures that are made of them: text boxes, persons and pipelines.
-/

namespace DiagramMarkup.Figure

open Compile

/-- Expand repeat groups in path data. -/
def expandPath (o : Options) (el : Element) : Except Failure Element :=
  match el.name, el.get? "d" with
  | "path", some d =>
    match Path.expandRepeats Float d o.pathRepeatLimit with
    | .ok x => return el.set "d" x
    | .error (.repeatLimit count limit) => throw (.limit (some el) "path repeats" count limit)
    | .error f => throw (.parse (some el) "d" f)
  | _, _ => return el

/-- A shape with its geometry settled: the element, what stands in it and beside it, its box, and the elements of its
label. -/
structure Settled where
  element : Element
  content : List Event
  beside : List Event := []
  box : Option (Box Float)
  parts : List Element := []

/-- The label of a text element as its content. -/
def labelContent (el : Element) : Option Label → Label.Markup
  | some l => Label.content el l.lines
  | none => {}

/-- The label of a shape with a box, drawn beside the shape. -/
def attached (el : Element) : Option Label → Option (Box Float) → Label.Markup
  | some l, some b => l.draw el b
  | _, _ => {}

/-- Measure a shape and draw its label. A text element keeps its label as content. -/
def measured (o : Options) (el : Element) (label : Option Label) (inner : List Event) :
    Except Failure Settled :=
  if el.name == "text" then do
    let lines := (label.map Label.lines).getD []
    let text := labelContent el label
    let box ← checked el "" (Label.box? o el (lines ++ Label.linesOf inner))
    return { element := el, content := text.events ++ inner, box := box, parts := text.elements }
  else do
    let box ← checked el "" el.box?
    let el ← rotated el box
    let text := attached el label box
    return { element := el, content := inner, beside := text.events, box := box, parts := text.elements }

/-- Draw a shape: settle its geometry, draw its content and its label. `note` is told the element in each of its
states, for messages. -/
def shape (note : Element → Compile Unit) (inside : Inside) (el : Element) (children : List Node) :
    Compile Drawing := do
  let el ← ofExcept (expandPath (← get).options el)
  note el
  let el ← ofExcept (Connector.connect (← get).boxOf el)
  note el
  let el ← ofExcept (Position.resolve (← get).boxOf el)
  let (label, el) ← ofExcept (Label.take el)
  note el
  let inner ← inside.of el children el.order
  let s ← ofExcept (measured (← get).options el label inner.events)
  s.parts.forM observe
  register s.element s.box
  observe s.element
  return ⟨Event.wrap s.element s.content ++ s.beside, s.box⟩

/-! ## Text boxes -/

/-- The space between the text of a text box and its outline. -/
def padding : Float := 2

/-- The rectangle of a text box: as large as its text needs, unless a size is given. -/
def textBoxRect (o : Options) (el : Element) (children : List Node) : Element :=
  let el := { el with name := "rect" }
  let (text, el) := match el.get? "text" with
    | some t => (t, el)
    | none =>
      let t := "\n".intercalate (Label.linesOf (Node.eventsAll children))
      (t, el.set "text" t)
  if el.has "wh" || el.has "width" || el.has "height" then el
  else
    let wh := Label.size (Label.splitLines text) (Label.fontSize o el)
    (el.setNumber "width" (wh.x + 2 * padding)).setNumber "height" (wh.y + 2 * padding)

/-- Draw a text box. -/
def textBox (inside : Inside) (el : Element) (children : List Node) : Compile Drawing := do
  let el := textBoxRect (← get).options el children
  setCurrent el
  shape setCurrent inside el []

/-! ## Persons and pipelines -/

/-- The attributes that place a figure. -/
def geometry : List String := ["x", "y", "width", "height"] ++ Position.attributes

/-- The box of a figure, which is placed like a rectangle of a default size. -/
def boxOf (el : Element) (w h : Float) : Compile (Box Float) := do
  let rect := { el with name := "rect" }
  let rect : Element :=
    if rect.has "wh" then rect
    else
      let attrs := rect.attrs.setDefault "width" (Number.fixedText w)
      { rect with attrs := attrs.setDefault "height" (Number.fixedText h) }
  let rect ← ofExcept (Position.resolve (← get).boxOf rect)
  match ← orFail el "" rect.box? with
  | some b => return b.normalized
  | none => raise .parse el "" .noSize

/-- An element whose attributes are numbers. -/
def numeric (name : String) (attrs : List (String × Float)) : Element :=
  .ofAttrs name (attrs.map fun p => (p.1, Number.fixedText p.2))

/-- The parts of a stick figure that fills a box. -/
def personParts (b : Box Float) : List Element :=
  let w := b.width
  let h := b.height
  let cx := b.x1 + w / 2
  let head := Number.least (h / 8) (w / 4)
  let neck := b.y1 + 2 * head
  let hip := b.y1 + h * 0.6
  let arms := b.y1 + h * 0.35
  [numeric "circle" [("cx", cx), ("cy", b.y1 + head), ("r", head)],
    numeric "line" [("x1", cx), ("y1", neck), ("x2", cx), ("y2", hip)],
    numeric "line" [("x1", b.x1), ("y1", arms), ("x2", b.x2), ("y2", arms)],
    .ofAttrs "polyline" [("points",
      Points.text [(⟨b.x1, b.y2⟩ : Point Float), ⟨cx, hip⟩, ⟨b.x2, b.y2⟩])]]

/-- Draw a person. -/
def person (el : Element) : Compile Drawing := do
  let b ← boxOf el 10 20
  let g := (({ el with name := "g" } : Element).eraseAll geometry).addClass "d-person"
  let parts := personParts b
  parts.forM observe
  let g ← ofExcept (rotated g (some b))
  register g (some b)
  observe g
  return ⟨Event.wrap g (parts.map .empty), some b⟩

/-- One step of path data. -/
def pathStep (letter : String) (args : List Float) : String :=
  " ".intercalate (letter :: args.map Number.fixedText)

/-- A cylinder along the longer side of a box, its visible end at the right or at the top. -/
def pipelinePath (b : Box Float) : String :=
  let x := b.x1
  let y := b.y1
  let w := b.width
  let h := b.height
  let steps := if h ≤ w then
      let rx := Number.least (h / 4) (w / 4)
      let ry := h / 2
      [pathStep "M" [x + rx, y], pathStep "A" [rx, ry, 0, 0, 0, x + rx, y + h],
        pathStep "L" [x + w - rx, y + h], pathStep "A" [rx, ry, 0, 0, 0, x + w - rx, y], "Z",
        pathStep "M" [x + w - rx, y], pathStep "A" [rx, ry, 0, 0, 0, x + w - rx, y + h]]
    else
      let rx := w / 2
      let ry := Number.least (w / 4) (h / 4)
      [pathStep "M" [x, y + ry], pathStep "A" [rx, ry, 0, 0, 1, x + w, y + ry],
        pathStep "L" [x + w, y + h - ry], pathStep "A" [rx, ry, 0, 0, 1, x, y + h - ry], "Z",
        pathStep "M" [x, y + ry], pathStep "A" [rx, ry, 0, 0, 0, x + w, y + ry]]
  " ".intercalate steps

/-- Draw a pipeline. Messages keep naming the pipeline, not the path it becomes. -/
def pipeline (inside : Inside) (el : Element) (children : List Node) : Compile Drawing := do
  let b ← boxOf el 20 10
  let path := (({ el with name := "path" } : Element).eraseAll geometry).addClass "d-pipeline"
  shape (fun _ => pure ()) inside (path.set "d" (pipelinePath b)) children

end DiagramMarkup.Figure
