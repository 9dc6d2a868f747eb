import DiagramMarkup.Compile.Control
import DiagramMarkup.Compile.Figure
import DiagramMarkup.Compile.Gradient
import DiagramMarkup.Compile.Reuse
import DiagramMarkup.Text.Hyphens

/-!
# Drawing

The roles put together: how a node of the document is drawn. Instances of templates may nest without end, so the
recursion is bounded by a number of levels; see `Bounds` for one that suffices.
-/

namespace DiagramMarkup

/-- Bounds on what a document can make the compilation do. -/
structure Bounds where
  /-- How deep elements are drawn within elements. -/
  levels : Nat
  /-- How often a loop without a count may turn. -/
  turns : Nat

namespace Bounds

/-- Does some element carry the attribute? -/
def mentions (name : String) (ns : List Node) : Bool :=
  (Node.preorderAll ns).any fun n => (n.element?.map (·.has name)).getD false

/-- The most that a limit can be while a document is compiled: a document that mentions it can set it to any number
that can be read. -/
def ceiling (name : String) (limit : Int) (ns : List Node) : Nat :=
  if mentions name ns then max limit.toNat Number.greatestInt.toNat else limit.toNat

/-- Bounds that suffice for a document. Between two steps of the nesting depth the drawing only descends through the
document, and the options limit the nesting depth and the turns of loops. -/
def ofDocument (o : Options) (ns : List Node) : Bounds where
  levels := (ceiling "depth-limit" o.depthLimit ns + 2) * (Node.sizeAll ns + 2)
  turns := ceiling "loop-limit" o.loopLimit ns + 1

end Bounds

open Compile

/-- Draw an element that holds others. Its attributes are variables for its content. -/
def drawContainer (inside : Inside) (drawn : Bool) (el : Element) (children : List Node)
    (order : Order) : Compile Drawing := do
  let el ← prepare el order
  withDepth el do
    let inner ← withFrame el.attrs.entries (inside.of el children el.order)
    let el ← ofExcept (rotated el inner.box)
    register el inner.box
    observe el
    return ⟨Event.wrap el inner.events, if drawn then inner.box else none⟩

/-- Copy an element; its content is not expanded. -/
def drawVerbatim (el : Element) (children : List Node) (order : Order) : Compile Drawing := do
  let el ← prepare el order
  observe el
  return { events := Event.wrap el (Node.eventsAll children) }

/-- A text for a comment, which may not hold two hyphens in a row: blanks go into the pairs, round by round, until there
is none. -/
def commentSafe (s : String) : String :=
  if Text.contains "--" s then commentSafe (Text.replace "--" "- -" s) else s
termination_by Text.doubled s.toList
decreasing_by exact Text.doubled_replace_lt ‹_›

/-- The comment that names an element in front of its drawing. -/
def debugComment (el : Element) : Event := .leaf (.comment (" " ++ commentSafe el.describe ++ " "))

/-- Can the identifier be used for references as it is written? -/
def isLiteralId (id : String) : Bool :=
  id != "" && !Text.hasChar '$' id && !Text.contains "\x7b\x7b" id

/-- Draw a leaf: text is expanded, all else is copied. -/
def drawLeaf : Leaf → Compile Drawing
  | .text s => do
    let s ← evaluating (← get).current "text" (·.expand s)
    return { events := [.text s] }
  | l => return { events := [.leaf l] }

/-- Draw a node, given how elements are drawn. -/
def drawNode (element : Element → List Node → Order → Compile Drawing) : Siblings.Step
  | .leaf l, _ => drawLeaf l
  | .element el children, order => do
    if isLiteralId el.id then modify (·.registerWritten el.id (.element el children))
    withCurrent el do
      let d ← element el children order
      if (← get).options.debug && !d.events.isEmpty then
        return { d with events := debugComment el :: d.events }
      return d

/-- Draw an element according to its role. -/
def drawElement (turnBound : Nat) : Nat → Element → List Node → Order → Compile Drawing
  | 0, _, _, _ => throw .exhausted
  | levels + 1, el, children, order =>
    let inside : Inside := Siblings.draw (drawNode (drawElement turnBound levels))
    match Role.ofName el.name with
    | .loop => Control.loop turnBound inside el children order
    | .each => Control.each inside el children order
    | .branch => Control.branch inside el children order
    | .assign => Control.assign el order
    | .config => Control.config el order
    | .defaults => Control.defaults children order
    | .templates => Control.templates children
    | .reuse => Reuse.draw (drawElement turnBound levels) (drawContainer inside true) el order
    | .gradient => do Gradient.draw inside (← prepare el order) children
    | .textBox => do Figure.textBox inside (← prepare el order) children
    | .person => do Figure.person (← prepare el order)
    | .pipeline => do Figure.pipeline inside (← prepare el order) children
    | .verbatim => drawVerbatim el children order
    | .container drawn => drawContainer inside drawn el children order
    | .shape => do Figure.shape setCurrent inside (← prepare el order) children

/-- Draw nodes within bounds. -/
def drawInside (b : Bounds) : Inside := Siblings.draw (drawNode (drawElement b.turns b.levels))

end DiagramMarkup
