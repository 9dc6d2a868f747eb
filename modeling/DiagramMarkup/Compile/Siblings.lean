import DiagramMarkup.Compile.Basic
import DiagramMarkup.Compile.Role

/-!
# Siblings

The content of an element is drawn in passes. In the first pass every node is tried in order; a node that waits for
a reference keeps the scope in which it was met and joins a queue. Later passes try the queue again, each node in its
own scope, until none is left or a pass settles nothing. Drawings are put in source order whichever pass made them.
-/

namespace DiagramMarkup

/-- A node that waits, with what it saw when it was first met. -/
structure Pending where
  node : Node
  order : Order
  scope : Scope
  prev : Option Order
  why : Deferral

/-- The drawing of a node, with the place of the node. -/
structure Chunk where
  order : Order
  drawing : Drawing

/-- What has become of a node in a pass. -/
inductive Sibling where
  | drawn (c : Chunk)
  | waiting (p : Pending)

namespace Sibling

/-- What an attempt makes of a node at a place; `wait` is the node as it waits. -/
def ofAttempt (order : Order) (wait : Deferral → Pending) : Except Deferral Drawing → Sibling
  | .ok d => .drawn ⟨order, d⟩
  | .error why => .waiting (wait why)

/-- The drawing, when there is one. -/
def chunk? : Sibling → Option Chunk
  | .drawn c => some c
  | .waiting _ => none

/-- The node as it waits, when it does. -/
def pending? : Sibling → Option Pending
  | .drawn _ => none
  | .waiting p => some p

end Sibling

namespace Siblings

/-- How one node is drawn. -/
abbrev Step := Node → Order → Compile Drawing

/-- An element that can be the target of `^` becomes so for its followers. -/
def aim (n : Node) (order : Order) (c : Context) : Context :=
  if Role.isTarget n then { c with prev := some order } else c

/-- Draw a node for the first time. It becomes the target of `^`, drawn or not. -/
def first (step : Step) (n : Node) (order : Order) : Compile Sibling := do
  let c ← get
  let r ← Compile.attempt (step n order)
  modify (aim n order)
  return .ofAttempt order (fun why => ⟨n, order, c.scope, c.prev, why⟩) r

/-- Draw a waiting node again, in its own scope; the live scope comes back afterwards. -/
def retry (step : Step) (p : Pending) : Compile Sibling := do
  let live ← get
  modify fun c => { c with scope := p.scope, prev := p.prev }
  let r ← Compile.bracket (Compile.attempt (step p.node p.order))
    fun c => { c with scope := live.scope, prev := live.prev }
  return .ofAttempt p.order (fun why => { p with why := why }) r

/-- Further passes over the queue: until nothing waits, or a pass settles nothing. Every other pass settles at least
one node, so as many passes suffice as there are waiting nodes. -/
def passes (step : Step) : Nat → List Chunk → List Pending → Compile (List Chunk × List Pending)
  | 0, chunks, queue => return (chunks, queue)
  | n + 1, chunks, queue => do
    if queue.isEmpty then return (chunks, queue)
    let tried ← queue.mapM (retry step)
    let next := tried.filterMap Sibling.pending?
    let chunks := chunks ++ tried.filterMap Sibling.chunk?
    if next.length == queue.length then return (chunks, next)
    passes step n chunks next

/-- White space in front of a node that draws nothing is dropped. -/
def tidy : List Drawing → List Drawing
  | d :: e :: rest =>
    if isBlank d && e.events.isEmpty then tidy (e :: rest) else d :: tidy (e :: rest)
  | ds => ds
where
  /-- Is this white space only? -/
  isBlank (d : Drawing) : Bool :=
    match d.events with
    | [.leaf l] => l.isBlank
    | _ => false

/-- The drawings in document order. -/
def inOrder (chunks : List Chunk) : List Drawing :=
  (chunks.mergeSort fun a b => (a.order.compare b.order).isLE).map Chunk.drawing

/-- One drawing of all chunks. -/
def assemble (chunks : List Chunk) : Drawing := .concat (tidy (inOrder chunks))

/-- Draw nodes below a place of the document. The nodes that still wait are listed beside the drawing. -/
def draw (step : Step) (nodes : List Node) (base : Order) : Compile (Drawing × List Deferral) := do
  let tried ← nodes.zipIdx.mapM fun (n, i) => first step n (base.sub i)
  let queue := tried.filterMap Sibling.pending?
  let r ← passes step queue.length (tried.filterMap Sibling.chunk?) queue
  return (assemble r.1, r.2.map Pending.why)

end Siblings

/-- How the content of an element is drawn. -/
abbrev Inside := List Node → Order → Compile (Drawing × List Deferral)

/-- Draw the content of an element; the element waits as long as some of it does. -/
def Inside.of (inside : Inside) (el : Element) (nodes : List Node) (order : Order) :
    Compile Drawing := do
  let (d, stalled) ← inside nodes order
  if stalled.isEmpty then return d
  throw (.deferred (.mk el.describe "" stalled))

end DiagramMarkup
