import DiagramMarkup.Compile.Draw
import DiagramMarkup.Theme.Styles
import DiagramMarkup.Xml.Reader
import DiagramMarkup.Xml.Writer

/-!
# Whole documents

`compile` turns the events of a document into those of a plain drawing: the root gets its size from everything drawn,
and automatic styles are added for what the drawing uses. Either the whole document is compiled, or there is an error
and no output.
-/

namespace DiagramMarkup

/-- The namespace of drawings. -/
def svgNamespace : String := "http://www.w3.org/2000/svg"

/-- The namespace of links. -/
def linkNamespace : String := "http://www.w3.org/1999/xlink"

/-- A document taken apart: the root element with its content, and what stands before and behind it. -/
structure Outermost where
  before : List Node
  root : Element
  content : List Node
  behind : List Node

namespace Outermost

/-- The root element of drawings. -/
def bare : Element := { name := "svg" }

/-- Find the root of a document. A root that is no drawing is put into one, and so are several roots. -/
def ofNodes? (ns : List Node) : Option Outermost :=
  match ns.filter Node.isElement with
  | [] => none
  | [.element el children] =>
    let isRest := fun (n : Node) => !n.isBlank
    let before := (ns.takeWhile (!·.isElement)).filter isRest
    let behind := ((ns.dropWhile (!·.isElement)).drop 1).filter isRest
    if el.name == "svg" then some ⟨before, el, children, behind⟩
    else some ⟨before, bare, [.element el children], behind⟩
  | _ => some ⟨[], bare, ns, []⟩

end Outermost

namespace Root

/-- Give an attribute a value unless it is present. -/
def fill (el : Element) (name value : String) : Element :=
  { el with attrs := el.attrs.setDefault name value }

/-- The size and view of the root, from the box of everything drawn. -/
def sized (o : Options) (el : Element) (box : Box Float) : Element :=
  let b := box.normalized.expand o.border o.border
  let view := " ".intercalate ([b.x1, b.y1, b.width, b.height].map Number.fixedText)
  fill (fill (fill el "width" (Number.fixedText (b.width * o.scale))) "height"
    (Number.fixedText (b.height * o.scale))) "viewBox" view

/-- The style of the root from the options, in front of its own. -/
def styled (o : Options) (el : Element) : Element :=
  if o.svgStyle == "" then el
  else
    let old := Text.trim (el.attrs.value "style")
    el.set "style" (if old == "" then o.svgStyle else o.svgStyle ++ "; " ++ old)

/-- The root with its namespace in front, its size and its style. -/
def finished (o : Options) (el : Element) (box : Option (Box Float)) : Element :=
  let el : Element :=
    if el.has "xmlns" then el
    else { el with attrs := .ofList (("xmlns", svgNamespace) :: el.attrs.entries) }
  styled o (match box with
    | some b => sized o el b
    | none => el)

/-- Does some element of the stream carry a link attribute? -/
def needsLinks (evs : List Event) : Bool :=
  evs.any fun e =>
    (e.element?.map fun el => el.attrs.names.any (Text.startsWith "xlink:")).getD false

/-- The output of a document whose content is drawn. -/
def assemble? (c : Context) (el : Element) (d : Drawing) : Option (List Event) := do
  let el := finished c.options el d.box
  let (names, classes) := (c.observe el).observed
  let styles ← Styles.build? c.options names classes
  let content := styles.events ++ d.events.map (Event.mapElement styles.apply)
  let el := styles.apply el
  let el := if needsLinks content then fill el "xmlns:xlink" linkNamespace else el
  return Event.wrap el content

/-- Draw the root element of a document: its attributes are expanded, and then its content is drawn. -/
def draw (b : Bounds) (el : Element) (content : List Node) :
    Compile (Element × Drawing × List Deferral) := do
  let el := { el with order := ⟨[0]⟩ }
  Compile.setCurrent el
  let el ← Compile.expandElement el
  Compile.setCurrent el
  let (d, stalled) ← drawInside b content el.order
  return (el, d, stalled)

end Root

open Root

/-- An error of one cause. -/
def CompileError.ofError (e : DocError) : CompileError := .document e []

/-- Compile the trees of a document. -/
def compileNodes (o : Options) (ns : List Node) (chance : Chance := {}) : Except CompileError (List Event) :=
  match Outermost.ofNodes? ns with
  | none => .error (.ofError { kind := .document, cause := some (.fault .noRoot) })
  | some out =>
    let (r, c) := (draw (.ofDocument o ns) out.root out.content).run (.new o chance)
    match r with
    | .error (.error e) => .error (.ofError e)
    | .error .exhausted => .error .exhausted
    | .error (.deferred d) => stalledError c [d]
    | .ok (el, d, []) =>
      match assemble? c el d with
      | some evs => .ok (Node.eventsAll out.before ++ evs ++ Node.eventsAll out.behind)
      | none => .error (.ofError
          { kind := .parse, attr := "user-stylesheet", cause := some (.fault .stylesheet) })
    | .ok (_, _, stalled) => stalledError c stalled
where
  /-- The error of a document of which something waits in vain. -/
  stalledError (c : Context) (ds : List Deferral) : Except CompileError (List Event) :=
    match c.unresolved ds with
    | e :: es => .error (.document e es)
    | [] => .error .exhausted

/-- Compile a document. -/
def compile (o : Options) (evs : List Event) (chance : Chance := {}) : Except CompileError (List Event) := do
  o.validate.mapError .options
  let ns ← (Node.ofEvents evs).mapError fun t => .ofError { kind := .document, cause := some (.tags t) }
  compileNodes o ns chance

/-- The error of a text that cannot be read or written. -/
def CompileError.unreadable : CompileError := .ofError { kind := .io }

/-- Compile the events of a document into the text of a drawing; nothing is known when the text could not be read. -/
def compileToText (o : Options) (evs : Option (List Event)) (chance : Chance := {}) : Except CompileError String := do
  match evs with
  | none => .error .unreadable
  | some evs =>
    let out ← compile o evs chance
    (Xml.write out).mapError fun _ => .unreadable

/-- Compile the text of a document. -/
def compileText (o : Options) (src : String) (chance : Chance := {}) : Except CompileError String :=
  compileToText o (Xml.read src) chance

end DiagramMarkup
