import DiagramMarkup.Element.Basic

/-!
# Scopes

The variables and element defaults in force at a place of the document. Variables live in frames: one for the whole
document, and one for each open element that gives its attributes to its content. Names are looked up from the
innermost frame outward.

Scopes are values here: frames that are opened are made for that, and a scope that is installed is a copy or is not used
elsewhere. `Session` keeps scopes that share frames.
-/

namespace DiagramMarkup

/-- Variables with their texts, each name once. -/
abbrev Frame := List (String × String)

namespace Frame

/-- Does the frame define the name? -/
def defines (f : Frame) (name : String) : Bool := (f.lookup name).isSome

/-- Give a variable a value. -/
def put (f : Frame) (name value : String) : Frame :=
  match f with
  | [] => [(name, value)]
  | p :: rest => if p.1 == name then (name, value) :: rest else p :: Frame.put rest name value

/-- The frame of named values, later ones winning. -/
def ofList (ps : List (String × String)) : Frame := ps.foldl (fun f p => Frame.put f p.1 p.2) []

/-- The order in which the variables of a frame are met where nothing determines it. -/
structure Visit where
  order : Frame → Frame
  perm (f : Frame) : (order f).Perm f

/-- The variables are met as they were written. -/
def Visit.written : Visit := ⟨id, fun f => .refl f⟩

end Frame

/-- Open frames, innermost first, around them the frame of the document, and element defaults in the order of
their definition. -/
structure Scope where
  inner : List Frame := []
  globals : Frame := []
  defaults : List Element := []
deriving Inhabited

namespace Scope

/-- The value of a variable in a list of frames. -/
def find? : List Frame → String → Option String
  | [], _ => none
  | f :: fs, name =>
    match f.lookup name with
    | some v => some v
    | none => find? fs name

/-- The value of a variable. -/
def var? (s : Scope) (name : String) : Option String := find? (s.inner ++ [s.globals]) name

/-- Assign in the innermost frame that defines the name, if there is one. -/
def reassign? (name value : String) : List Frame → Option (List Frame)
  | [] => none
  | f :: fs =>
    if Frame.defines f name then some (Frame.put f name value :: fs)
    else (reassign? name value fs).map (f :: ·)

/-- Assign a variable: in the innermost frame that defines it, else in the innermost frame. -/
def setVar (s : Scope) (name value : String) : Scope :=
  match reassign? name value s.inner with
  | some fs => { s with inner := fs }
  | none =>
    match s.inner with
    | f :: fs =>
      if Frame.defines s.globals name then { s with globals := Frame.put s.globals name value }
      else { s with inner := Frame.put f name value :: fs }
    | [] => { s with globals := Frame.put s.globals name value }

/-- Assign a variable of the document. -/
def setGlobal (s : Scope) (name value : String) : Scope :=
  { s with globals := Frame.put s.globals name value }

/-- Open a frame. -/
def push (s : Scope) (f : Frame) : Scope := { s with inner := f :: s.inner }

/-- Close the innermost frame; the frame of the document stays. -/
def pop (s : Scope) : Scope := { s with inner := s.inner.tail }

/-- How many frames are open besides that of the document. -/
def depth (s : Scope) : Nat := s.inner.length

/-- Define defaults for elements with the name of `d`, or for all when it is named `_`. -/
def addDefault (s : Scope) (d : Element) : Scope := { s with defaults := s.defaults ++ [d] }

/-- Fill what an element does not set from one definition, if it matches. -/
def fillFrom (el d : Element) : Element :=
  if d.name != el.name && d.name != "_" then el
  else
    let attrs := d.attrs.entries.foldl (fun (a : Attrs) p => a.setDefault p.1 p.2) el.attrs
    ({ el with attrs := attrs } : Element).addClasses d.classes

/-- Fill what an element does not set from the defaults; later definitions win. -/
def applyDefaults (s : Scope) (el : Element) : Element := s.defaults.reverse.foldl fillFrom el

end Scope

end DiagramMarkup
