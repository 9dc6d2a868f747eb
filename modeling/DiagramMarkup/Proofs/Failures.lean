import DiagramMarkup.Compile.Figure
import DiagramMarkup.Proofs.Steps

/-!
# How settling a shape fails

Settling the geometry of a shape fails with an error of its own, or as one of its references does, and in no other way.
So a property of failures that holds of all errors holds of every failure of a stage, if it holds of what the references
fail with.
-/

namespace DiagramMarkup

open Element

variable {β γ : Type} {E : Failure → Prop}

/-- If the outcome is a failure, the failure has the property. -/
def Blames (E : Failure → Prop) (r : Except Failure β) : Prop := ∀ e, r = .error e → E e

namespace Blames

theorem ok (a : β) : Blames E (.ok a) := by
  intro e he
  cases he

theorem error {f : Failure} (h : E f) : Blames E (.error f : Except Failure β) := by
  intro e he
  cases he
  exact h

theorem bind {r : Except Failure β} {f : β → Except Failure γ} (hr : Blames E r)
    (hf : ∀ a, Blames E (f a)) : Blames E (r >>= f) := by
  cases r with
  | error e => exact .error (hr e rfl)
  | ok a => exact hf a

theorem forM {f : β → Except Failure PUnit} (h : ∀ a, Blames E (f a)) (as : List β) :
    Blames E (as.forM f) := by
  induction as with
  | nil => exact .ok _
  | cons a as ih => exact (h a).bind fun _ => ih

end Blames

section Stages

variable (hE : ∀ e, E (.error e))

include hE

theorem Blames.parsed (el : Option Element) (attr : String) (r : Except Fault β) :
    Blames E (r.mapError (Failure.parse el attr)) := by
  cases r with
  | error f => exact .error (hE _)
  | ok a => exact .ok a

theorem Blames.checked (el : Element) (attr : String) (r : Except Fault β) :
    Blames E (Compile.checked el attr r) := .parsed hE _ _ r

theorem Blames.numberIn (el : Element) (attr s : String) :
    Blames E (Compile.numberIn el attr s) := .checked hE _ _ _

theorem Compile.blames_rotated (el : Element) (box : Option (Box Float)) :
    Blames E (rotated el box) := by
  unfold rotated
  split
  · exact .ok _
  · exact (Blames.numberIn hE _ _ _).bind fun _ => .ok _

/-! ## Positions -/

namespace Position

theorem fails_failOn (attr : String) (f : Fault) : Fails E (failOn attr f : Edit Failure β) :=
  .bind .get fun _ => .throw (hE _)

theorem fails_orFail (attr : String) (r : Except Fault β) : Fails E (orFail attr r) := by
  unfold orFail
  split
  · exact .pure
  · exact fails_failOn hE _ _

theorem fails_require (holds : Bool) (attr : String) (f : Fault) :
    Fails E (require holds attr f) := by
  unfold require
  split
  · exact .pure
  · exact fails_failOn hE _ _

theorem fails_requireSized (shape : Shape) (attr : String) : Fails E (requireSized shape attr) :=
  .bind .get fun _ => fails_require hE _ _ _

theorem fails_editing (attr : String) (e : Edit Fault Unit) : Fails E (editing attr e) :=
  .bind .get fun _ => .bind .set fun _ => fails_orFail hE _ _

omit hE in
theorem fails_take (name : String) : Fails E (take name) :=
  .bind .get fun _ => .bind .set fun _ => .pure

variable {refs : Referrer Float} (hrefs : ∀ t, Blames E (refs t))

omit hE in
include hrefs in
theorem fails_boxOf (t : String) : Fails E (boxOf refs t) := by
  unfold boxOf
  split
  · exact .pure
  · next f h => exact .throw (hrefs t f h)

theorem fails_margined (inside : Bool) (b : Box Float) : Fails E (margined inside b) := by
  unfold margined
  refine .bind (fails_take _) fun m => ?_
  split
  · exact .pure
  · exact .bind (fails_orFail hE _ _) fun _ => .pure

theorem fails_combined (inside : Bool) (v : String) (boxes : List (Box Float)) :
    Fails E (combined inside v boxes) := by
  unfold combined
  refine .bind .get fun el => ?_
  split
  · exact .pure
  · exact .throw (hE _)

theorem fails_adjusted (v : String) (size : Point Float) (args : List String) :
    Fails E (adjusted v size args) := by
  unfold adjusted
  split
  · exact .pure
  · exact .bind (fails_orFail hE _ _) fun _ => .pure
  · exact .bind (fails_orFail hE _ _) fun _ => .bind (fails_orFail hE _ _) fun _ => .pure
  · exact fails_failOn hE _ _

theorem fails_grown (attr : String) (d : Option String) (size : Float) :
    Fails E (grown attr d size) := by
  unfold grown
  split
  · exact .pure
  · exact .bind (fails_orFail hE _ _) fun _ => .pure

theorem fails_sizeByDelta (shape : Shape) : Fails E (sizeByDelta Float shape) := by
  unfold sizeByDelta
  refine .bind (fails_take _) fun dw => .bind (fails_take _) fun dh => ?_
  split
  · exact .pure
  refine .bind (fails_requireSized hE _ _) fun _ => .bind .get fun _ => ?_
  refine .bind (fails_orFail hE _ _) fun _ => .bind (fails_grown hE _ _ _) fun _ => ?_
  exact .bind (fails_grown hE _ _ _) fun _ => .modify

theorem fails_place (shape : Shape) (attr : String) (l : Loc) (p : Point Float) :
    Fails E (place shape attr l p) := by
  have drawn : Fails E (placeDrawn attr l p) := by
    unfold placeDrawn
    refine .bind .get fun _ => .bind (fails_orFail hE _ _) fun b => ?_
    split
    · exact .bind .get fun _ => fails_failOn hE _ _
    · exact fails_editing hE _ _
  have sized : Fails E (placeSized shape attr l p) :=
    .bind .get fun _ => .bind (fails_orFail hE _ _) fun _ => .modify
  unfold place
  split
  · exact .modify
  · exact drawn
  · exact drawn
  · exact drawn
  · exact sized
  · exact sized
  · exact sized

theorem fails_shiftOf (attr : String) : Fails E (shiftOf Float attr) := by
  unfold shiftOf
  refine .bind (fails_take _) fun v => ?_
  split
  · exact .pure
  · refine .bind (fails_orFail hE _ _) fun ns => ?_
    split
    · exact .pure
    · exact fails_failOn hE _ _

theorem fails_ownLoc : Fails E ownLoc := by
  unfold ownLoc
  refine .bind (fails_take _) fun v => ?_
  split
  · exact .pure
  · exact fails_orFail hE _ _

include hrefs

theorem fails_encloseBy (shape : Shape) (inside : Bool) (attr : String) :
    Fails E (encloseBy refs shape inside attr) := by
  unfold encloseBy
  refine .bind (fails_take _) fun v => ?_
  split
  · exact .pure
  unfold enclose boxesOf
  refine .bind (fails_requireSized hE _ _) fun _ => .bind (.bind (fails_require hE _ _ _) fun _ => ?_) ?_
  · exact .mapM (fun t => .bind (fails_require hE _ _ _) fun _ => fails_boxOf hrefs t) _
  · exact fun _ => .bind (fails_combined hE _ _ _) fun _ => .bind (fails_margined hE _ _) fun _ => .modify

theorem fails_sizeByPair (shape : Shape) : Fails E (sizeByPair refs shape) := by
  unfold sizeByPair
  refine .bind (fails_take _) fun v => ?_
  split
  · exact .pure
  refine .bind (fails_requireSized hE _ _) fun _ => .bind ?_ fun _ => .modify
  unfold parseSize
  split
  · exact fails_orFail hE _ _
  · refine .bind (fails_orFail hE _ _) fun ref => .bind (fails_require hE _ _ _) fun _ => ?_
    exact .bind (fails_boxOf hrefs _) fun _ => fails_adjusted hE _ _ _

theorem fails_pointOf (attr : String) (ref : Ref Float) (implied : Loc) :
    Fails E (pointOf refs attr ref implied) := by
  unfold pointOf
  split
  · exact fails_orFail hE _ _
  · exact .bind (fails_boxOf hrefs _) fun _ => .bind (fails_orFail hE _ _) fun _ => .pure

theorem fails_placeBy (shape : Shape) (attr v : String) (loc : Loc) :
    Fails E (placeBy refs shape attr v loc) := by
  unfold placeBy goal
  refine .bind (.bind (fails_orFail hE _ _) fun ref => ?_) fun _ => fails_place hE _ _ _ _
  split
  · refine .bind (fails_boxOf hrefs _) fun _ => .bind (fails_orFail hE _ _) fun _ => ?_
    split <;> exact .pure
  · exact .bind (fails_pointOf hE hrefs _ _ _) fun _ => .pure

theorem fails_placeEnds (shape : Shape) : Fails E (placeEnds refs shape) := by
  have placeEnd : ∀ attr nx ny, Fails E (placeEnd refs attr nx ny) := by
    intro attr nx ny
    unfold placeEnd
    refine .bind (fails_take _) fun v => ?_
    split
    · exact .pure
    · exact .bind (fails_orFail hE _ _) fun _ => .bind (fails_pointOf hE hrefs _ _ _) fun _ => .modify
  unfold placeEnds
  split
  · exact .bind (placeEnd _ _ _) fun _ => placeEnd _ _ _
  · exact .pure

/-- Settling the position of an element fails as its references do, or with an error. -/
theorem blames_resolve (el : Element) : Blames E (resolve refs el) := by
  have run : ∀ shape, Fails E (do sizes refs shape; locate refs shape : Edit Failure Unit) := by
    intro shape
    unfold sizes locate
    refine .bind (.bind (fails_encloseBy hE hrefs _ _ _) fun _ =>
      .bind (fails_encloseBy hE hrefs _ _ _) fun _ =>
      .bind (fails_sizeByPair hE hrefs _) fun _ => fails_sizeByDelta hE _) fun _ => ?_
    refine .bind (fails_placeEnds hE hrefs _) fun _ => .bind (fails_ownLoc hE) fun loc => ?_
    refine .bind (fails_take _) fun cxy => .bind (fails_take _) fun xy => .bind ?_ fun _ => ?_
    · unfold placeByEither
      split
      · exact .pure
      · exact fails_failOn hE _ _
      · exact fails_placeBy hE hrefs _ _ _ _
      · exact fails_placeBy hE hrefs _ _ _ _
    · exact .bind (fails_shiftOf hE _) fun _ => .bind (fails_shiftOf hE _) fun _ =>
        fails_editing hE _ _
  unfold resolve
  split
  · exact .ok _
  split
  · exact .ok _
  · next shape _ _ =>
    split
    · exact .ok _
    · next f fl h =>
      refine .error (run shape el f ?_)
      unfold exec
      rw [h]

end Position

/-! ## Connectors, labels and measures -/

theorem Connector.blames_connect {refs : Position.Referrer Float} (hrefs : ∀ t, Blames E (refs t))
    (el : Element) : Blames E (connect refs el) := by
  have endpoint : ∀ attr v, Blames E (Position.Endpoint.resolve refs (some el) attr v) := by
    intro attr v
    unfold Position.Endpoint.resolve
    refine (Blames.parsed hE _ _ _).bind fun ref => ?_
    split
    · exact .error (hE _)
    · exact (Blames.parsed hE _ _ _).bind fun _ => .ok _
    · refine (hrefs _).bind fun b => ?_
      split
      · exact (Blames.parsed hE _ _ _).bind fun _ => .ok _
      · exact .ok _
  unfold connect
  split
  · exact .ok _
  split
  · exact .ok _
  · refine (endpoint _ _).bind fun _ => (endpoint _ _).bind fun _ => .bind ?_ fun _ => .ok _
    unfold cornerOffset
    split
    · exact .ok _
    · simp only [map_eq_pure_bind]
      exact (Blames.checked hE _ _ _).bind fun _ => .ok _
  · exact .error (hE _)

theorem Label.blames_take (el : Element) : Blames E (take el) := by
  have offset : ∀ fl attr v, Blames E (offset fl attr v) := by
    intro fl attr v
    unfold Label.offset
    simp only
    split
    · exact .ok _
    · exact .numberIn hE _ _ _
  unfold take
  simp only
  split
  · exact .ok _
  split
  · exact .ok _
  refine .bind ?_ fun _ => (offset _ _ _).bind fun _ => (offset _ _ _).bind fun _ => .ok _
  unfold locOf
  split
  · exact .ok _
  · exact .checked hE _ _ _

namespace Figure

theorem blames_expandPath (o : Options) (el : Element) : Blames E (expandPath o el) := by
  unfold expandPath
  split
  · split
    · exact .ok _
    · exact .error (hE _)
    · exact .error (hE _)
  · exact .ok _

theorem blames_measured (o : Options) (el : Element) (label : Option Label) (inner : List Event) :
    Blames E (measured o el label inner) := by
  unfold measured
  split
  · exact (Blames.checked hE _ _ _).bind fun _ => .ok _
  · exact (Blames.checked hE _ _ _).bind fun _ => (Compile.blames_rotated hE _ _).bind fun _ => .ok _

end Figure

end Stages

/-! ## Contexts -/

namespace Context

variable (hE : ∀ e, E (.error e)) (c : Context)

include hE

theorem blames_checkVar (name value : String) : Blames E (c.checkVar name value) := by
  unfold checkVar
  split
  · exact .error (hE _)
  · exact .ok _

theorem blames_pushFrame (vars : Frame) : Blames E (c.pushFrame vars) := by
  unfold pushFrame
  have one : ∀ p : String × String, Blames E (c.checkVar p.1 p.2) := fun p =>
    blames_checkVar hE c p.1 p.2
  have all := Blames.forM one (c.chance.visit.order vars)
  exact .bind all fun _ => .ok _

theorem blames_setVar (name value : String) : Blames E (c.setVar name value) := by
  unfold setVar
  exact .bind (blames_checkVar hE c name value) fun _ => .ok _

theorem blames_enter (el : Option Element) : Blames E (c.enter el) := by
  unfold enter
  simp only
  split
  · exact .error (hE _)
  · exact .ok _

theorem blames_checkLoop (el : Option Element) (n : Int) : Blames E (c.checkLoop el n) := by
  unfold checkLoop
  split
  · exact .error (hE _)
  · exact .ok _

/-- A reference waits, or it is an error. -/
theorem blames_boxOf (hW : ∀ d, E (.deferred d)) (t : String) : Blames E (c.boxOf t) := by
  unfold boxOf lookup
  refine .bind ?_ fun entry => ?_
  · split
    · split
      · exact .error (hE _)
      · split
        · exact .ok _
        · exact .error (hW _)
    · split
      · split
        · exact .ok _
        · exact .error (hW _)
      · exact .error (hE _)
  · split
    · exact .ok _
    · exact .error (hE _)

end Context

end DiagramMarkup
