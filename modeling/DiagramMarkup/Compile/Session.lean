import DiagramMarkup.Compile.Basic

/-!
# Sessions

A context in use, with the scopes that were saved, as they are kept in memory. Operations are performed in any order, and
those that fail as well.

Frames are known by their addresses. A frame that is opened is the caller's, not a copy, and who opens it twice has it in
a scope twice. A saved scope is a copy of the live one. Installing it makes it the live scope, without another copy, and
whoever keeps it beside that sees what is done to it.
-/

namespace DiagramMarkup

/-- An open scope. The addresses of its frames stand in the first cells of an array, the outermost first. -/
structure Handle where
  array : Nat
  height : Nat

/-- Close the innermost frame, unless it is the only one. -/
def Handle.pop (h : Handle) : Handle := if 1 < h.height then { h with height := h.height - 1 } else h

/-- A frame that a caller opens. -/
inductive Passed where
  /-- A frame made for this. -/
  | fresh (vars : Frame)
  /-- The frame at an address. -/
  | held (a : Nat)

/-- Frames by address, and arrays of addresses. -/
structure Memory where
  frames : List Frame
  arrays : List (List Nat)

namespace Memory

/-- The frame at an address. -/
def frame (m : Memory) (a : Nat) : Frame := m.frames[a]?.getD []

/-- The addresses of the open frames, the outermost first. -/
def cells (m : Memory) (h : Handle) : List Nat := (m.arrays[h.array]?.getD []).take h.height

/-- The addresses of the open frames, the innermost first. -/
def addresses (m : Memory) (h : Handle) : List Nat := (m.cells h).reverse

/-- The scope that shows. -/
def scope (m : Memory) (h : Handle) : Scope :=
  let frames := (m.addresses h).map m.frame
  { inner := frames.dropLast, globals := frames.getLastD [] }

/-- The address of a new frame. -/
def alloc (m : Memory) (vars : Frame) : Memory × Nat := ({ m with frames := m.frames ++ [vars] }, m.frames.length)

/-- The address of a frame that is passed. No frame at all is passed as an empty one. -/
def pass (m : Memory) : Passed → Memory × Nat
  | .fresh vars => m.alloc vars
  | .held a => if a < m.frames.length then (m, a) else m.alloc []

/-- Assign in the frame at an address. -/
def put (m : Memory) (a : Nat) (name value : String) : Memory :=
  { m with frames := m.frames.modify a (·.put name value) }

/-- The address of the innermost frame that defines the name, or else of the innermost frame. -/
def target (m : Memory) (h : Handle) (name : String) : Nat :=
  ((m.addresses h).find? fun a => (m.frame a).defines name).getD ((m.addresses h).headD 0)

/-- Open a frame. The next cell of the array is taken, even if another scope uses it. If there is none, then the cells are
copied to a new array, which has some room. -/
def push (m : Memory) (room : Nat → Nat) (h : Handle) (a : Nat) : Memory × Handle :=
  let array := m.arrays[h.array]?.getD []
  if h.height < array.length then
    ({ m with arrays := m.arrays.set h.array (array.set h.height a) }, { h with height := h.height + 1 })
  else
    ({ m with arrays := m.arrays ++ [m.cells h ++ [a] ++ List.replicate (room h.height) a] },
      { array := m.arrays.length, height := h.height + 1 })

/-- Copy a scope, frame by frame. -/
def clone (m : Memory) (h : Handle) : Memory × Handle :=
  let copies := (m.cells h).map m.frame
  ({ frames := m.frames ++ copies, arrays := m.arrays ++ [List.range' m.frames.length copies.length] },
    { array := m.arrays.length, height := copies.length })

end Memory

/-- A context in use, with the scopes that were saved. -/
structure Session where
  /-- The context, with the live scope as it shows. -/
  context : Context
  memory : Memory
  live : Handle
  saved : List Handle
  /-- How many free cells a new array has. -/
  room : Nat → Nat

/-- What can be done in a session. -/
inductive Operation where
  /-- Open a frame, after its values are checked in some order. -/
  | push (visit : Frame.Visit) (vars : Passed)
  /-- Close the innermost frame. -/
  | pop
  | setVar (name value : String)
  | setGlobal (name value : String)
  /-- Save a copy of the live scope. -/
  | snapshot
  /-- Save a copy of a saved scope. -/
  | copy (i : Nat)
  /-- Save a saved scope once more, without a copy. -/
  | keep (i : Nat)
  /-- Install a saved scope. The scope that it replaces is saved in its place. -/
  | restore (i : Nat)
  | enter (el : Option Element)
  | leave
  /-- Change an option, for an element. -/
  | setOption (el : Element) (name value : String)

/-- The context in which values are checked in a given order. -/
def Context.visiting (c : Context) (visit : Frame.Visit) : Context := { c with chance := { c.chance with visit := visit } }

namespace Session

/-- The session at the start of a compilation. -/
def new (o : Options) (chance : Chance := {}) (room : Nat → Nat := fun _ => 0) : Session where
  context := .new o chance
  memory := { frames := [[]], arrays := [[0]] }
  live := { array := 0, height := 1 }
  saved := []
  room := room

/-- The session with another context, memory and live scope. -/
def withLive (s : Session) (c : Context) (r : Memory × Handle) : Session :=
  { s with context := { c with scope := r.1.scope r.2 }, memory := r.1, live := r.2 }

/-- The session with another memory and one more saved scope. -/
def save (s : Session) (r : Memory × Handle) : Session := { s with memory := r.1, saved := s.saved ++ [r.2] }

/-- Change the context and then the memory, if the context allows it. -/
def step (s : Session) (f : Context → Except Failure Context) (r : Memory × Handle) : Except Failure Unit × Session :=
  match f s.context with
  | .ok c => (.ok (), s.withLive c r)
  | .error e => (.error e, s)

/-- Install a saved scope, and save the one that it replaces in its place. -/
def restore (s : Session) (i : Nat) : Session :=
  match s.saved[i]? with
  | some h => { s.withLive s.context (s.memory, h) with saved := s.saved.set i s.live }
  | none => s

/-- Perform an operation. -/
def perform (s : Session) : Operation → Except Failure Unit × Session
  | .push visit vars =>
    let r := s.memory.pass vars
    s.step (fun c => (c.visiting visit).pushFrame (r.1.frame r.2)) (r.1.push s.room s.live r.2)
  | .pop => s.step (fun c => .ok c.popFrame) (s.memory, s.live.pop)
  | .setVar name value =>
    s.step (·.setVar name value) (s.memory.put (s.memory.target s.live name) name value, s.live)
  | .setGlobal name value =>
    s.step (·.setGlobal name value) (s.memory.put ((s.memory.cells s.live).headD 0) name value, s.live)
  | .snapshot => (.ok (), s.save (s.memory.clone s.live))
  | .copy i =>
    match s.saved[i]? with
    | some h => (.ok (), s.save (s.memory.clone h))
    | none => (.ok (), s)
  | .keep i => (.ok (), { s with saved := s.saved ++ s.saved[i]?.toList })
  | .restore i => (.ok (), s.restore i)
  | .enter el => s.step (·.enter el) (s.memory, s.live)
  | .leave => s.step (fun c => .ok c.leave) (s.memory, s.live)
  | .setOption el name value =>
    s.step (fun c => Compile.checked el name (c.setOption name value)) (s.memory, s.live)

/-- Perform operations one after the other, also those behind one that fails. -/
def run (s : Session) (ops : List Operation) : Session := ops.foldl (fun s op => (s.perform op).2) s

end Session

end DiagramMarkup
