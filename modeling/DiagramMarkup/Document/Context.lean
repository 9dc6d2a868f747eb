import DiagramMarkup.Document.Error
import DiagramMarkup.Document.Options
import DiagramMarkup.Document.Scope
import DiagramMarkup.Expr.Template
import DiagramMarkup.Geometry.Box

/-!
# Document contexts

Everything that one compilation knows: options, scope, the elements resolved so far, templates, the element at hand,
the target of `^`, the nesting depth, and what the output uses.
-/

namespace DiagramMarkup

/-- A resolved element with its box, if it has one. -/
structure Entry where
  element : Element
  box : Option (Box Float)

/-- Resolved elements, the latest first. -/
structure Registry where
  byId : List (String × Entry) := []
  byOrder : List (Order × Entry) := []
deriving Inhabited

namespace Registry

/-- Record a resolved element. -/
def register (r : Registry) (el : Element) (box : Option (Box Float)) : Registry :=
  let e : Entry := ⟨el, box⟩
  { byOrder := (el.order, e) :: r.byOrder
    byId := if el.id == "" then r.byId else (el.id, e) :: r.byId }

end Registry

/-- What a compilation leaves to chance. -/
structure Chance where
  /-- The random source of every seed. -/
  random : Int → Expr.Source := fun _ => .scripted []
  /-- The order in which the values of a new frame are checked. It shows only where a frame is refused, which ends the
  compilation. -/
  visit : Frame.Visit := .written
deriving Inhabited

/-- The state of a compilation. -/
structure Context where
  options : Options := {}
  chance : Chance := {}
  dice : Expr.Dice := {}
  scope : Scope := {}
  registry : Registry := {}
  /-- Elements as written, by identifier; the first of a name counts. -/
  written : List (String × Node) := []
  /-- Templates, the latest first. -/
  templates : List (String × Node) := []
  /-- Identifiers met anywhere, resolved or not. -/
  seen : List String := []
  /-- The element at hand, for messages. -/
  current : Option Element := none
  /-- Where the element meant by `^` stands. -/
  prev : Option Order := none
  depth : Nat := 0
  /-- Element names of the output. -/
  names : List String := []
  /-- Class names of the output. -/
  classes : List String := []
deriving Inhabited

namespace Context

/-- The context at the start of a compilation. -/
def new (o : Options) (chance : Chance := {}) : Context :=
  { options := o, chance := chance, dice := { source := chance.random o.seed } }

/-- Change an option; a new seed starts another random sequence. -/
def setOption (c : Context) (name value : String) : Except Fault Context := do
  let o ← c.options.set name value
  return { c with
    options := o
    dice := if o.seed == c.options.seed then c.dice else { source := c.chance.random o.seed } }

/-! ## Expressions -/

/-- What expressions see. -/
def env (c : Context) : Expr.Env := ⟨c.scope.var?, c.options.depthLimit⟩

/-- Run an expression computation. -/
def runExpr {β : Type} (c : Context) (m : Expr.TextM β) : Except Expr.Error β × Context :=
  let (r, dice) := m.run c.dice
  (r, { c with dice := dice })

/-- Evaluate regions in double braces and substitute variables. -/
def expand (c : Context) (s : String) : Except Expr.Error String × Context :=
  c.runExpr (Expr.expand c.env s)

/-- Evaluate an expression, after expanding regions in double braces. -/
def eval (c : Context) (s : String) : Except Expr.Error Expr.Value × Context :=
  c.runExpr do
    let s ← if Text.occurs Expr.openMark s.toList then Expr.expand c.env s else pure s
    Expr.eval c.env s

/-! ## Variables -/

/-- The length of a text in bytes. -/
def byteSize (s : String) : Nat := Text.byteLength s.toList

/-- Check the length of a value against the limit. -/
def checkVar (c : Context) (name value : String) : Except Failure Unit :=
  if c.options.varLimit < byteSize value then
    .error (.limit c.current ("variable $" ++ name ++ " length") (byteSize value) c.options.varLimit)
  else .ok ()

/-- Open a frame. Which one of several values that are too long is reported is left to chance. -/
def pushFrame (c : Context) (vars : Frame) : Except Failure Context := do
  (c.chance.visit.order vars).forM fun p => c.checkVar p.1 p.2
  return { c with scope := c.scope.push vars }

/-- Close the innermost frame. -/
def popFrame (c : Context) : Context := { c with scope := c.scope.pop }

/-- Assign a variable. -/
def setVar (c : Context) (name value : String) : Except Failure Context := do
  c.checkVar name value
  return { c with scope := c.scope.setVar name value }

/-- Assign a variable of the document. -/
def setGlobal (c : Context) (name value : String) : Except Failure Context := do
  c.checkVar name value
  return { c with scope := c.scope.setGlobal name value }

/-! ## Elements -/

/-- Record a resolved element. -/
def register (c : Context) (el : Element) (box : Option (Box Float)) : Context :=
  { c with registry := c.registry.register el box }

/-- Record an identifier. -/
def markSeen (c : Context) (id : String) : Context :=
  if id == "" then c else { c with seen := id :: c.seen }

/-- Has the identifier been met? -/
def hasSeen (c : Context) (id : String) : Bool := c.seen.contains id

/-- The resolved element of a reference. -/
def lookup (c : Context) (ref : String) : Except Failure Entry :=
  if ref == "^" then
    match c.prev with
    | none => .error (.raise .reference c.current "" (.fault .noPrevious))
    | some o =>
      match c.registry.byOrder.lookup o with
      | some e => .ok e
      | none => .error (.waits c.current ref)
  else
    match ref.toList with
    | '#' :: d :: rest =>
      match c.registry.byId.lookup (String.ofList (d :: rest)) with
      | some e => .ok e
      | none => .error (.waits c.current ref)
    | _ => .error (.raise .parse c.current "" (.fault (.badReference ref)))

/-- The box of a reference. -/
def boxOf (c : Context) (ref : String) : Except Failure (Box Float) := do
  match (← c.lookup ref).box with
  | some b => return b
  | none => throw (.raise .reference c.current "" (.fault (.noBox ref)))

/-- Record an element as written, unless one with its identifier is known. -/
def registerWritten (c : Context) (id : String) (n : Node) : Context :=
  match c.written.lookup id with
  | some _ => c
  | none => { c with written := (id, n) :: c.written }

/-- Record a template. -/
def addTemplate (c : Context) (id : String) (n : Node) : Context :=
  { c with templates := (id, n) :: c.templates }

/-- What an identifier instantiates: a template, else an element as written. -/
def template? (c : Context) (id : String) : Option Node :=
  (c.templates.lookup id).or (c.written.lookup id)

/-- Record the name and classes of an output element. -/
def observe (c : Context) (el : Element) : Context :=
  let add := fun (xs : List String) (x : String) => if xs.contains x then xs else x :: xs
  { c with names := add c.names el.name, classes := el.classes.foldl add c.classes }

/-- The names and classes of the output, sorted. -/
def observed (c : Context) : List String × List String :=
  (c.names.mergeSort (· ≤ ·), c.classes.mergeSort (· ≤ ·))

/-! ## Limits -/

/-- Go one level deeper, for an element. -/
def enter (c : Context) (el : Option Element) : Except Failure Context :=
  let d := c.depth + 1
  if c.options.depthLimit < d then .error (.limit el "nesting depth" d c.options.depthLimit)
  else .ok { c with depth := d }

/-- Come back from one level. -/
def leave (c : Context) : Context := { c with depth := c.depth - 1 }

/-- Check a number of iterations. -/
def checkLoop (c : Context) (el : Option Element) (n : Int) : Except Failure Unit :=
  if c.options.loopLimit < n then .error (.limit el "loop iterations" n c.options.loopLimit)
  else .ok ()

/-! ## Stalled documents -/

/-- The error of an element that waits in vain: an identifier met nowhere is a bad reference. -/
def stalledError (c : Context) (d : Deferral) : DocError :=
  let fault := fun (kind : ErrorKind) (f : Fault) =>
    ({ kind := kind, element := d.element, attr := d.ref, cause := some (.fault f) } : DocError)
  match d.ref.toList with
  | [] => fault .document .unresolvedContent
  | '#' :: rest =>
    let id := String.ofList rest
    if c.hasSeen id then fault .document .cycle else fault .reference (.unknownId id)
  | _ => fault .document .cycle

/-- One error for every innermost deferral. -/
def unresolved (c : Context) (ds : List Deferral) : List DocError :=
  (Deferral.leavesAll ds).map c.stalledError

end Context

end DiagramMarkup
