import DiagramMarkup.Compile.Basic
import DiagramMarkup.Geometry.Anchor

/-!
# Text of shapes

A shape may carry text in its attributes. It is drawn as a text element of its own at a location of the shape's box,
one span a line. The size of text is estimated from the number of characters.
-/

namespace DiagramMarkup

/-- The text a shape carries. -/
structure Label where
  lines : List String
  loc : Loc := .center
  dx : Float := 0
  dy : Float := 0
  style : String := ""

namespace Label

/-- The distance between lines, in font sizes. -/
def lineSpacing : Float := 1.05

/-- The estimated width of a character, in font sizes. -/
def charWidth : Float := 0.6

/-- How far text at an edge stays off the outline. -/
def inset : Float := 1

/-- The lines of a text; a line ends at a newline or at a backslash followed by `n`. -/
def splitLines (s : String) : List String := Text.splitAt '\n' (Text.replace "\\n" "\n" s)

/-- The lines of character data in a stream, without blank ones. -/
def linesOf (evs : List Event) : List String :=
  evs.flatMap fun
    | .leaf (.text s) | .leaf (.cdata s) =>
      ((Text.splitAt '\n' s).map Text.trim).filter (· != "")
    | _ => []

/-- The attributes that belong to the text of a shape. -/
def attributes : List String := ["text", "text-loc", "text-dx", "text-dy", "text-style"]

/-- An offset in an attribute, zero when it is missing or blank. -/
def offset (el : Element) (attr : String) (v : Option String) : Except Failure Float :=
  let s := v.getD ""
  if Text.trim s == "" then pure 0 else Compile.numberIn el attr s

/-- The location of the text, the middle unless another is given. -/
def locOf (el : Element) (v : Option String) : Except Failure Loc :=
  match v with
  | none => pure .center
  | some l => Compile.checked el "text-loc" (Loc.parse (Text.trim l))

/-- Take the text off an element. -/
def take (el : Element) : Except Failure (Option Label × Element) :=
  let text := el.get? "text"
  let bare := el.eraseAll attributes
  if el.name == "text" then
    pure (text.map fun t => { lines := splitLines t }, el.erase "text")
  else match text with
  | none => pure (none, bare)
  | some t => do
    let loc ← locOf bare (el.get? "text-loc")
    let dx ← offset bare "text-dx" (el.get? "text-dx")
    let dy ← offset bare "text-dy" (el.get? "text-dy")
    return (some ⟨splitLines t, loc, dx, dy, (el.get? "text-style").getD ""⟩, bare)

/-! ## Estimated sizes -/

/-- The size at which the text of an element is drawn. -/
def fontSize (o : Options) (el : Element) : Float :=
  let size := match (el.number "font-size" : Except Fault (Option Float)) with
    | .ok (some v) => v
    | _ => o.fontSize
  if el.hasClass "d-text-small" then size * 2 / 3
  else if el.hasClass "d-text-large" then size * 1.5
  else size

/-- The estimated width and height of lines. -/
def size (lines : List String) (fontSize : Float) : Point Float :=
  let chars := lines.foldl (fun n l => max n l.toList.length) 0
  ⟨Number.ofInt chars * fontSize * charWidth, Number.ofInt lines.length * fontSize * lineSpacing⟩

/-- The estimated box of the lines that a text element draws. -/
def box? (o : Options) (el : Element) (lines : List String) : Except Fault (Option (Box Float)) := do
  if lines.isEmpty then return none
  let x : Float ← el.numberOrZero "x"
  let y : Float ← el.numberOrZero "y"
  let fs := fontSize o el
  let wh := size lines fs
  let anchor := el.attrs.value "text-anchor"
  let centred := el.hasClass "d-text"
  let x :=
    if anchor == "end" || el.hasClass "d-text-right" then x - wh.x
    else if anchor == "middle" || (centred && anchor == "" && !el.hasClass "d-text-left") then
      x - wh.x / 2
    else x
  let y :=
    if el.hasClass "d-text-top" then y
    else if el.hasClass "d-text-bottom" then y - wh.y
    else if centred then y - wh.y / 2
    else y - fs
  return some (.ofSize x y wh.x wh.y)

/-! ## Drawing -/

/-- The offset of the first of several lines, so that they stand as one block. -/
def firstShift (el : Element) (count : Nat) : Float :=
  let rest := Number.ofInt ((count : Int) - 1)
  if el.hasClass "d-text-top" then 0
  else if el.hasClass "d-text-bottom" then -rest * lineSpacing
  else if el.hasClass "d-text" then -rest * lineSpacing / 2
  else 0

/-- A piece of text markup: its events, and the elements in them. -/
structure Markup where
  events : List Event := []
  elements : List Element := []

/-- One line as a span. -/
def span (x : String) (dy : Float) (line : String) : Element × List Event :=
  let el := Element.ofAttrs "tspan" [("x", x), ("dy", Number.fixedText dy ++ "em")]
  (el, Event.wrap el [.text line])

/-- The content of a text element: the line itself, or one span for each of several. -/
def content (el : Element) (lines : List String) : Markup :=
  match lines with
  | [line] => { events := [.text line] }
  | _ =>
    let x := el.attrs.value "x"
    let x := if x == "" then "0" else x
    let spans := lines.zipIdx.map fun (line, i) =>
      span x (if i == 0 then firstShift el lines.length else lineSpacing) line
    ⟨spans.flatMap (·.2), spans.map (·.1)⟩

/-- Where the text of a shape stands, with the classes that align it. -/
def anchored (l : Label) (b : Box Float) : Point Float × List String :=
  let p := b.locate l.loc
  let (y, vertical) :=
    if l.loc.onTop then (p.y + inset, ["d-text-top"])
    else if l.loc.onBottom then (p.y - inset, ["d-text-bottom"])
    else (p.y, [])
  let (x, horizontal) :=
    if l.loc.onLeft then (p.x + inset, ["d-text-left"])
    else if l.loc.onRight then (p.x - inset, ["d-text-right"])
    else (p.x, [])
  (⟨x + l.dx, y + l.dy⟩, "d-text" :: vertical ++ horizontal)

/-- The text element of a shape with a box. -/
def element (l : Label) (shape : Element) (b : Box Float) : Element :=
  let (p, classes) := l.anchored b.normalized
  let el : Element := { name := "text" }
  let el := ((el.addClasses classes).setNumber "x" p.x).setNumber "y" p.y
  let el := el.addClasses (shape.classes.filter (Text.startsWith "d-text-"))
  if l.style == "" then el else el.set "style" l.style

/-- The text of a shape. -/
def draw (l : Label) (shape : Element) (b : Box Float) : Markup :=
  let el := l.element shape b
  let inner := content el l.lines
  ⟨Event.wrap el inner.events, el :: inner.elements⟩

end Label

end DiagramMarkup
