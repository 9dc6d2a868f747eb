import DiagramMarkup.Position.Ref

/-!
# Ends of connectors

A connector starts and ends at a point, at an anchor of a box, or anywhere at a box.
-/

namespace DiagramMarkup.Position

/-- One end of a connector. -/
inductive Endpoint (α : Type) where
  | point (p : Point α)
  | box (b : Box α)
  | anchor (b : Box α) (p : Point α) (dir : Option Dir)
deriving Repr

namespace Endpoint

variable {α : Type}

/-- The point of the end, when it is settled. -/
def point? : Endpoint α → Option (Point α)
  | .point p | .anchor _ p _ => some p
  | .box _ => none

/-- The box of the end. -/
def box? : Endpoint α → Option (Box α)
  | .point _ => none
  | .box b | .anchor b _ _ => some b

/-- The direction in which the connector leaves. -/
def dir? : Endpoint α → Option Dir
  | .anchor _ _ d => d
  | _ => none

variable [Scalar α]

/-- Read the value of an end. -/
def resolve (refs : Referrer α) (el : Option Element) (attr v : String) :
    Except Failure (Endpoint α) := do
  let orFail {β : Type} (r : Except Fault β) : Except Failure β :=
    r.mapError (Failure.parse el attr)
  let ref : Ref α ← orFail (Ref.parse v)
  match ref.spot, ref.target with
  | .beside _, _ => throw (.parse el attr (.directedEnd v))
  | _, none => return .point (← orFail ref.pair)
  | spot, some t =>
    let b := (← refs t).normalized
    match spot with
    | .anchor a =>
      let d ← orFail ref.offset
      let p := a.point b
      return .anchor b ⟨p.x + d.x, p.y + d.y⟩ a.dir?
    | _ => return .box b

end Endpoint

end DiagramMarkup.Position
