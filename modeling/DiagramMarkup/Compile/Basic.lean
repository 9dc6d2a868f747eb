import DiagramMarkup.Document.Context
import DiagramMarkup.Element.Shape

/-!
# Compilation steps

A step of the compilation works on the context and may fail. What it changed before it failed stays changed, so
whatever a step borrows — a frame of variables, a level of nesting, the element at hand — is given back by a bracket
around it, on every way out.
-/

namespace DiagramMarkup

/-- A step of the compilation. -/
abbrev Compile := ExceptT Failure (StateM Context)

/-- What an element draws: its events, and the box it adds to what encloses it. -/
structure Drawing where
  events : List Event := []
  box : Option (Box Float) := none
deriving Inhabited

namespace Drawing

/-- The common box of two drawings. -/
def joinBox : Option (Box Float) → Option (Box Float) → Option (Box Float)
  | a, none => a
  | none, some b => some b.normalized
  | some a, some b => some (a.union b)

/-- Several drawings one after the other. -/
def concat (ds : List Drawing) : Drawing :=
  ⟨ds.flatMap events, ds.foldl (fun b d => joinBox b d.box) none⟩

end Drawing

namespace Compile

/-- Fail with an error of an element. -/
def raise {β : Type} (kind : ErrorKind) (el : Element) (attr : String) (f : Fault) : Compile β :=
  throw (.raise kind (some el) attr (.fault f))

/-- The value of a reading, or a failure because of an attribute. -/
def checked {β : Type} (el : Element) (attr : String) (r : Except Fault β) : Except Failure β :=
  r.mapError (.parse (some el) attr)

/-- Go on with the value of a reading, or fail because of an attribute. -/
def orFail {β : Type} (el : Element) (attr : String) (r : Except Fault β) : Compile β :=
  ofExcept (checked el attr r)

/-- Change the context, unless that fails. -/
def update (f : Context → Except Failure Context) : Compile Unit := do
  match f (← get) with
  | .ok c => set c
  | .error e => throw e

/-- Run a step and then clean up, whether it failed or not. -/
def bracket {β : Type} (m : Compile β) (cleanUp : Context → Context) : Compile β :=
  ExceptT.mk do
    let r ← m.run
    modify cleanUp
    return r

/-- Run a step in a frame of its own. -/
def withFrame {β : Type} (vars : Frame) (m : Compile β) : Compile β := do
  update (·.pushFrame vars)
  bracket m Context.popFrame

/-- Run a step one level deeper. -/
def withDepth {β : Type} (el : Element) (m : Compile β) : Compile β := do
  update (·.enter (some el))
  bracket m Context.leave

/-- Make an element the one at hand. -/
def setCurrent (el : Element) : Compile Unit := modify fun c => { c with current := some el }

/-- Run a step for an element, and come back to the one at hand. -/
def withCurrent {β : Type} (el : Element) (m : Compile β) : Compile β := do
  let old := (← get).current
  setCurrent el
  bracket m fun c => { c with current := old }

/-- Run a step and tell a deferral from a result; other failures pass. -/
def attempt {β : Type} (m : Compile β) : Compile (Except Deferral β) :=
  tryCatch (do return .ok (← m)) fun
    | .deferred d => return .error d
    | f => throw f

/-! ## Texts and numbers -/

/-- Run an expression computation for an attribute. -/
def evaluating {β : Type} (el : Option Element) (attr : String)
    (f : Context → Except Expr.Error β × Context) : Compile β := do
  let (r, c) := f (← get)
  set c
  match r with
  | .ok x => return x
  | .error e => throw (.expr el attr e)

/-- Expand a text that belongs to an attribute. -/
def expand (el : Element) (attr s : String) : Compile String :=
  evaluating (some el) attr (·.expand s)

/-- Evaluate the expression in an attribute. -/
def eval (el : Element) (attr s : String) : Compile Expr.Value :=
  evaluating (some el) attr (·.eval s)

/-- Does the expression in an attribute hold? -/
def condition (el : Element) (attr s : String) : Compile Bool := do
  return (← eval el attr s).truthy

/-- The number in an attribute. -/
def numberIn (el : Element) (attr s : String) : Except Failure Float :=
  let t := Text.trim s
  checked el attr ((Number.read t).mapError (.number .float t))

/-- Read the number in an attribute. -/
def readNumber (el : Element) (attr s : String) : Compile Float := ofExcept (numberIn el attr s)

/-! ## Elements -/

/-- Expand one attribute. -/
def expandAttr (el : Element) (p : String × String) : Compile Element := do
  let v ← expand el p.1 p.2
  return if v == p.2 then el else el.set p.1 v

/-- Expand the attributes and classes of an element. A class may become several. -/
def expandElement (el : Element) : Compile Element := do
  let el ← el.attrs.entries.foldlM expandAttr el
  let classes ← el.classes.mapM fun c => do return Text.words (← expand el "class" c)
  return ({ el with classes := [] } : Element).addClasses classes.flatten

/-- Make an element ready for output: it gets its place, its attributes are expanded, defaults are filled in, and
its identifier is recorded. -/
def prepare (el : Element) (order : Order) : Compile Element := do
  let el := { el with order := order }
  setCurrent el
  let el ← expandElement el
  let el := (← get).scope.applyDefaults el
  modify fun c => { c.markSeen el.id with current := some el }
  return el

/-- Record an element of the output. -/
def observe (el : Element) : Compile Unit := modify (·.observe el)

/-- Record a resolved element. -/
def register (el : Element) (box : Option (Box Float)) : Compile Unit := modify (·.register el box)

/-- Turn the attribute `rotate` into a rotation about the middle of the box. -/
def rotated (el : Element) (box : Option (Box Float)) : Except Failure Element :=
  match el.get? "rotate" with
  | none => pure el
  | some v => do
    let el := el.erase "rotate"
    let a ← numberIn el "rotate" v
    return if a == 0 then el else el.prependTransform (rotation a box)
where
  /-- A rotation about the middle of a box, or about the origin. -/
  rotation (a : Float) : Option (Box Float) → String
    | none => "rotate(" ++ Number.fixedText a ++ ")"
    | some b =>
      "rotate(" ++ Number.fixedText a ++ ", " ++ Number.fixedText b.center.x ++ ", " ++
        Number.fixedText b.center.y ++ ")"

end Compile

end DiagramMarkup
