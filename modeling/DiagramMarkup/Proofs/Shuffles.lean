import DiagramMarkup.Proofs.Lookups
import DiagramMarkup.Proofs.Shapes

/-!
# The order of attributes

The attributes of an element stand in an order, which the output keeps. Where one of them stands does not matter to
settling the position of the element: it is settled in the same way, and the attribute can be removed afterwards.

1. Two runs match if they end in the same way and their states stay related, and sequences of matching steps match
   (`Matches.bind`). Failures are compared without the element they name, since its description shows the order.
2. Elements that are shuffled stay so when attributes are given values or removed (`Shuffled.set`, `Shuffled.erase`).
3. So all edits that settle a position match on shuffled elements, and `resolve` does (`Position.matches_resolve`).
-/

namespace DiagramMarkup

/-! ## Pairs of runs -/

section Runs

variable {ε σ α β γ δ : Type}

/-- Both runs have results in the relation, or both fail in the same way; the states are in the relation. -/
inductive Matched (F : ε → ε → Prop) (S : σ → σ → Prop) (R : α → β → Prop) :
    Except ε α × σ → Except ε β × σ → Prop where
  | ok {a : α} {b : β} {s t : σ} (hr : R a b) (hs : S s t) : Matched F S R (.ok a, s) (.ok b, t)
  | error {e f : ε} {s t : σ} (he : F e f) (hs : S s t) : Matched F S R (.error e, s) (.error f, t)

/-- From states in the relation the runs match. -/
def Matches (F : ε → ε → Prop) (S : σ → σ → Prop) (R : α → β → Prop) (m : ExceptT ε (StateM σ) α)
    (n : ExceptT ε (StateM σ) β) : Prop :=
  ∀ s t, S s t → Matched F S R (exec m s) (exec n t)

namespace Matches

variable {F : ε → ε → Prop} {S : σ → σ → Prop} {R : α → β → Prop} {Q : γ → δ → Prop}
  {m : ExceptT ε (StateM σ) α} {n : ExceptT ε (StateM σ) β}

theorem pure {a : α} {b : β} (h : R a b) : Matches F S R (pure a) (pure b) := fun _ _ hs => .ok h hs

theorem throw {e f : ε} (h : F e f) : Matches F S R (throw e) (throw f) := fun _ _ hs => .error h hs

theorem modify {f g : σ → σ} (h : ∀ s t, S s t → S (f s) (g t)) :
    Matches F S Eq (modify f : ExceptT ε (StateM σ) PUnit) (modify g) := fun s t hs => .ok rfl (h s t hs)

theorem bind {f : α → ExceptT ε (StateM σ) γ} {g : β → ExceptT ε (StateM σ) δ} (hm : Matches F S R m n)
    (hf : ∀ a b, R a b → Matches F S Q (f a) (g b)) : Matches F S Q (m >>= f) (n >>= g) := by
  intro s t hs
  have h := hm s t hs
  rw [exec_bind, exec_bind]
  generalize exec m s = r at h
  generalize exec n t = r' at h
  cases h with
  | ok hr hs => exact hf _ _ hr _ _ hs
  | error he hs => exact .error he hs

/-- What goes before has the same result in both runs. -/
theorem after {n : ExceptT ε (StateM σ) α} {f : α → ExceptT ε (StateM σ) γ} {g : α → ExceptT ε (StateM σ) δ}
    (hm : Matches F S Eq m n) (hf : ∀ a, Matches F S Q (f a) (g a)) : Matches F S Q (m >>= f) (n >>= g) :=
  hm.bind fun a _ h => h ▸ hf a

/-- The states that are read are in the relation. -/
theorem read {f : σ → ExceptT ε (StateM σ) γ} {g : σ → ExceptT ε (StateM σ) δ}
    (h : ∀ s t, S s t → Matches F S Q (f s) (g t)) : Matches F S Q (get >>= f) (get >>= g) :=
  fun s t hs => h s t hs s t hs

/-- What the first run keeps and gives may be added. -/
theorem ensured {I : σ → Prop} {P : α → Prop} (hm : Matches F S R m n) (he : Ensures I m P) :
    Matches F (fun s t => I s ∧ S s t) (fun a b => R a b ∧ P a) m n := by
  rintro s t ⟨hi, hs⟩
  have h := hm s t hs
  obtain ⟨hi, ha⟩ := he s hi
  generalize exec m s = r at h hi ha
  generalize exec n t = r' at h
  cases h with
  | ok hr hs => exact .ok ⟨hr, ha _ rfl⟩ ⟨hi, hs⟩
  | error he hs => exact .error he ⟨hi, hs⟩

theorem mono {R' : α → β → Prop} (hm : Matches F S R m n) (h : ∀ a b, R a b → R' a b) : Matches F S R' m n := by
  intro s t hs
  have hrun := hm s t hs
  generalize exec m s = r at hrun
  generalize exec n t = r' at hrun
  cases hrun with
  | ok hr hs => exact .ok (h _ _ hr) hs
  | error he hs => exact .error he hs

/-- Readings that have results. -/
theorem known {a : α} {b : β} {f : α → ExceptT ε (StateM σ) γ} {g : β → ExceptT ε (StateM σ) δ}
    (h : Matches F S Q (f a) (g b)) : Matches F S Q (MonadExcept.ofExcept (.ok a) >>= f)
      (MonadExcept.ofExcept (.ok b) >>= g) := fun s t hs => h s t hs

/-- The same reading in both runs. -/
theorem ofExcept (hF : ∀ e, F e e) (r : Except ε α) :
    Matches F S Eq (MonadExcept.ofExcept r : ExceptT ε (StateM σ) α) (MonadExcept.ofExcept r) := by
  intro s t hs
  rw [exec_ofExcept, exec_ofExcept]
  cases r with
  | error e => exact .error (hF e) hs
  | ok a => exact .ok rfl hs

theorem mapM {f g : α → ExceptT ε (StateM σ) γ} (h : ∀ a, Matches F S Eq (f a) (g a)) :
    ∀ as : List α, Matches F S Eq (as.mapM f) (as.mapM g)
  | [] => .pure rfl
  | a :: as => by
    rw [List.mapM_cons, List.mapM_cons]
    exact .after (h a) fun b => .after (mapM h as) fun bs => .pure rfl

end Matches

end Runs

/-- The failure without the element that it names. -/
def Failure.unnamed : Failure → Failure
  | .deferred d => .deferred (.mk "" d.ref d.causes)
  | .error e => .error { e with element := "" }
  | .exhausted => .exhausted

/-- The failures are the same apart from the elements that they name. -/
def Failure.Alike (e f : Failure) : Prop := e.unnamed = f.unnamed

theorem Failure.Alike.refl (e : Failure) : e.Alike e := rfl

/-! ## Shuffled attributes -/

namespace Attrs

theorem put_filter_of_ne {a n : String} (h : n ≠ a) (v : String) : ∀ es : List (String × String),
    (put n v es).filter (·.1 != a) = put n v (es.filter (·.1 != a))
  | [] => List.filter_cons_of_pos (by simpa using h)
  | (m, w) :: es => by
    have hput := put_filter_of_ne h v es
    by_cases hm : m = n
    · subst hm
      rw [put_cons_self, List.filter_cons_of_pos (by simpa using h), List.filter_cons_of_pos (by simpa using h),
        put_cons_self]
    · rw [put_cons_of_ne hm]
      by_cases ha : m = a
      · rw [List.filter_cons_of_neg (by simpa using ha), List.filter_cons_of_neg (by simpa using ha), hput]
      · rw [List.filter_cons_of_pos (by simpa using ha), List.filter_cons_of_pos (by simpa using ha), hput,
          put_cons_of_ne hm]

theorem put_filter_self (a v : String) : ∀ es : List (String × String),
    (put a v es).filter (·.1 != a) = es.filter (·.1 != a)
  | [] => List.filter_cons_of_neg (by simp)
  | (m, w) :: es => by
    by_cases hm : m = a
    · subst hm
      rw [put_cons_self, List.filter_cons_of_neg (by simp), List.filter_cons_of_neg (by simp)]
    · rw [put_cons_of_ne hm, List.filter_cons_of_pos (by simpa using hm), List.filter_cons_of_pos (by simpa using hm),
        put_filter_self a v es]

theorem eq_of_entries {as bs : Attrs} (h : as.entries = bs.entries) : as = bs := by
  cases as
  cases bs
  cases h
  rfl

theorem erase_set_of_ne {a n : String} (h : n ≠ a) (v : String) (as : Attrs) :
    (as.set n v).erase a = (as.erase a).set n v := eq_of_entries (put_filter_of_ne h v as.entries)

theorem erase_set_self (a v : String) (as : Attrs) : (as.set a v).erase a = as.erase a :=
  eq_of_entries (put_filter_self a v as.entries)

theorem erase_comm (m n : String) (as : Attrs) : (as.erase m).erase n = (as.erase n).erase m := by
  refine eq_of_entries ?_
  unfold erase
  simp only [List.filter_filter, Bool.and_comm]

end Attrs

namespace Element

/-- The element with other attributes. -/
def withAttrs (el : Element) (as : Attrs) : Element := { el with attrs := as }

theorem erase_set_of_ne {a n : String} (h : n ≠ a) (el : Element) (v : String) :
    (el.set n v).erase a = (el.erase a).set n v := congrArg (withAttrs el) (Attrs.erase_set_of_ne h v el.attrs)

theorem erase_set_self (el : Element) (a v : String) : (el.set a v).erase a = el.erase a :=
  congrArg (withAttrs el) (Attrs.erase_set_self a v el.attrs)

theorem erase_comm (el : Element) (m n : String) : (el.erase m).erase n = (el.erase n).erase m :=
  congrArg (withAttrs el) (Attrs.erase_comm m n el.attrs)

/-- The elements are the same, but the attribute may stand in another place. -/
structure Shuffled (a : String) (el fl : Element) : Prop where
  rest : el.erase a = fl.erase a
  value : el.get? a = fl.get? a

namespace Shuffled

variable {a : String} {el fl : Element} (h : Shuffled a el fl)

include h

theorem name : el.name = fl.name := congrArg (·.name) h.rest

theorem classes : el.classes = fl.classes := congrArg (·.classes) h.rest

theorem get? (n : String) : el.get? n = fl.get? n := by
  by_cases hn : n = a
  · rw [hn, h.value]
  · have hget := congrArg (·.get? n) h.rest
    rwa [get?_erase, get?_erase, if_neg hn, if_neg hn] at hget

theorem has (n : String) : el.has n = fl.has n := by rw [has_eq_isSome, has_eq_isSome, h.get? n]

theorem shape? : el.shape? = fl.shape? := congrArg Shape.ofName? h.name

theorem number {α : Type} [Scalar α] (n : String) : (el.number n : Except Fault (Option α)) = fl.number n := by
  unfold Element.number
  rw [h.get? n]

theorem box? {α : Type} [Scalar α] : (el.box? : Except Fault (Option (Box α))) = fl.box? := by
  have hvalue : ∀ n, el.attrs.value n = fl.attrs.value n := fun n => congrArg (Option.getD · "") (h.get? n)
  unfold Element.box? Element.numberOrZero
  simp only [h.number, h.get?, hvalue, h.shape?]

theorem set (n v : String) : Shuffled a (el.set n v) (fl.set n v) := by
  refine ⟨?_, by rw [get?_set, get?_set, h.value]⟩
  by_cases hn : n = a
  · rw [hn, erase_set_self, erase_set_self, h.rest]
  · rw [erase_set_of_ne hn, erase_set_of_ne hn, h.rest]

theorem erase (n : String) : Shuffled a (el.erase n) (fl.erase n) :=
  ⟨by rw [erase_comm, h.rest, erase_comm], by rw [get?_erase, get?_erase, h.value]⟩

theorem setNumber {α : Type} [Scalar α] (n : String) (v : α) : Shuffled a (el.setNumber n v) (fl.setNumber n v) :=
  h.set n _

theorem setBox {α : Type} [Scalar α] (b : Box α) : Shuffled a (el.setBox b) (fl.setBox b) := by
  unfold Element.setBox
  simp only [h.shape?]
  cases fl.shape? with
  | none => exact h
  | some s =>
    cases s with
    | box | ellipse | line => exact (((h.setNumber _ _).setNumber _ _).setNumber _ _).setNumber _ _
    | circle => exact ((h.setNumber _ _).setNumber _ _).setNumber _ _
    | point => exact (h.setNumber _ _).setNumber _ _
    | points | path => exact h

theorem prependTransform (t : String) : Shuffled a (el.prependTransform t) (fl.prependTransform t) := by
  unfold Element.prependTransform
  rw [h.get?]
  split <;> exact h.set _ _

end Shuffled

end Element

open Element

/-! ## Native geometry -/

section Geometry

variable {a : String} {α : Type} [Scalar α]

/-- The edit does the same to shuffled elements. -/
abbrev SteadyEdit (a : String) {β : Type} (m : Edit Fault β) : Prop := Matches Eq (Shuffled a) Eq m m

theorem steady_shiftNumber (n : String) (d : α) : SteadyEdit a (shiftNumber n d) := by
  unfold shiftNumber
  refine .read fun el fl h => ?_
  rw [h.number]
  split
  · exact .throw rfl
  · exact .pure rfl
  · exact .modify fun el fl h => h.setNumber _ _

theorem steady_fillNumber (n : String) (v : α) : SteadyEdit a (fillNumber n v) := by
  unfold fillNumber
  refine .read fun el fl h => ?_
  rw [h.has]
  split
  · exact .pure rfl
  · exact .modify fun el fl h => h.setNumber _ _

theorem steady_translate (dx dy : α) : SteadyEdit a (translate dx dy) := by
  have round : SteadyEdit a (do shiftNumber "cx" dx; shiftNumber "cy" dy) :=
    .after (steady_shiftNumber _ _) fun _ => steady_shiftNumber _ _
  have box : SteadyEdit a (do shiftNumber "x" dx; shiftNumber "y" dy; fillNumber "x" dx; fillNumber "y" dy) :=
    .after (steady_shiftNumber _ _) fun _ => .after (steady_shiftNumber _ _) fun _ =>
      .after (steady_fillNumber _ _) fun _ => steady_fillNumber _ _
  unfold Element.translate
  split
  · exact .pure rfl
  refine .read fun el fl h => ?_
  rw [h.shape?]
  cases fl.shape? with
  | none => exact .modify fun el fl h => h.prependTransform _
  | some s =>
    cases s with
    | box | point => exact box
    | circle | ellipse => exact round
    | line =>
      exact .after (steady_shiftNumber _ _) fun _ => .after (steady_shiftNumber _ _) fun _ =>
        .after (steady_shiftNumber _ _) fun _ => steady_shiftNumber _ _
    | points =>
      refine .read fun el fl h => ?_
      rw [show el.attrs.value "points" = fl.attrs.value "points" from congrArg (Option.getD · "") (h.get? _)]
      split
      · exact .throw rfl
      · exact .modify fun el fl h => h.set _ _
    | path => exact .modify fun el fl h => h.prependTransform _

end Geometry

/-! ## Positions -/

namespace Position

section Edits

variable {a : String} {β : Type}

/-- The edits match on shuffled elements. -/
abbrev Agree (a : String) (m n : Edit Failure β) : Prop := Matches Failure.Alike (Shuffled a) Eq m n

theorem agree_take (name : String) : Agree a (take name) (take name) :=
  fun _ _ h => .ok (h.get? name) (h.erase name)

theorem agree_failOn (attr : String) (f : Fault) : Agree a (failOn attr f : Edit Failure β) (failOn attr f) :=
  fun _ _ h => .error rfl h

theorem agree_orFail (attr : String) (r : Except Fault β) : Agree a (orFail attr r) (orFail attr r) := by
  cases r with
  | ok b => exact .pure rfl
  | error f => exact agree_failOn attr f

theorem agree_require (holds : Bool) (attr : String) (f : Fault) :
    Agree a (require holds attr f) (require holds attr f) := by
  cases holds with
  | false => exact agree_failOn attr f
  | true => exact .pure rfl

theorem agree_editing (attr : String) {e : Edit Fault Unit} (he : SteadyEdit a e) :
    Agree a (editing attr e) (editing attr e) := by
  intro el fl h
  have hrun := he el fl h
  unfold exec at hrun
  unfold editing
  rw [exec_bind_ok (exec_get _), exec_bind_ok (exec_get _)]
  generalize ExceptT.run e el = r at hrun
  generalize ExceptT.run e fl = r' at hrun
  cases hrun with
  | @ok b _ el fl hr h =>
    cases hr
    exact agree_orFail attr (.ok b) el fl h
  | @error f _ el fl hf h =>
    cases hf
    exact agree_orFail attr (.error f) el fl h

theorem agree_requireSized (shape : Shape) (attr : String) :
    Agree a (requireSized shape attr) (requireSized shape attr) := by
  refine .read fun el fl h => ?_
  rw [h.name]
  exact agree_require _ _ _

end Edits

variable {a : String} {α : Type} [Scalar α] (shape : Shape)

theorem shuffled_setSize {el fl : Element} (h : Shuffled a el fl) (w x : α) :
    Shuffled a (setSize shape w x el) (setSize shape w x fl) := by
  unfold Position.setSize
  split
  · exact (h.setNumber _ _).setNumber _ _
  · exact h.setNumber _ _
  · exact (h.setNumber _ _).setNumber _ _
  · exact h

theorem sizeOf_of_shuffled {el fl : Element} (h : Shuffled a el fl) :
    (sizeOf el shape : Except Fault (Option α × Option α)) = sizeOf fl shape := by
  unfold Position.sizeOf
  simp only [h.number]

theorem shuffled_setExtent {el fl : Element} (h : Shuffled a el fl) (e : Extent α) :
    Shuffled a (setExtent shape e el) (setExtent shape e fl) := by
  have known : ∀ {el fl : Element} (n : String) (v : Option α), Shuffled a el fl →
      Shuffled a (setIfKnown n v el) (setIfKnown n v fl) := by
    intro el fl n v h
    cases v with
    | none => exact h
    | some v => exact h.setNumber _ _
  unfold Position.setExtent
  split
  · exact h.setBox _
  split
  · exact known _ _ (known _ _ h)
  · exact known _ _ (known _ _ h)

/-- The boxes that are found for references are the same, and so are failures apart from the elements they name. -/
def Alike (refs refs' : Referrer α) : Prop :=
  ∀ t, (refs t).mapError Failure.unnamed = (refs' t).mapError Failure.unnamed

variable {refs refs' : Referrer α} (hrefs : Alike refs refs')

include hrefs

omit [Scalar α] in
theorem agree_boxOf (t : String) : Agree a (boxOf refs t) (boxOf refs' t) := by
  have h := hrefs t
  unfold boxOf
  cases hr : refs t with
  | ok b =>
    cases hr' : refs' t with
    | ok b' =>
      rw [hr, hr'] at h
      exact .pure (Except.ok.inj h)
    | error f => rw [hr, hr'] at h; cases h
  | error e =>
    cases hr' : refs' t with
    | ok b' => rw [hr, hr'] at h; cases h
    | error f =>
      rw [hr, hr'] at h
      exact .throw (Except.error.inj h)

/-! ### Sizes -/

omit [Scalar α] in
theorem agree_boxesOf (attr v : String) : Agree a (boxesOf refs attr v) (boxesOf refs' attr v) :=
  .after (agree_require _ _ _) fun _ => .mapM (fun t => .after (agree_require _ _ _) fun _ => agree_boxOf hrefs t) _

omit hrefs in
theorem agree_combined (inside : Bool) (v : String) (boxes : List (Box α)) :
    Agree a (combined inside v boxes) (combined inside v boxes) := by
  refine .read fun el fl h => ?_
  split
  · exact .pure rfl
  · exact .throw rfl

omit hrefs in
theorem agree_margined (inside : Bool) (b : Box α) : Agree a (margined inside b) (margined inside b) := by
  refine .after (agree_take _) fun m => ?_
  cases m with
  | none => exact .pure rfl
  | some m => exact .after (agree_orFail _ _) fun _ => .pure rfl

theorem agree_encloseBy (inside : Bool) (attr : String) :
    Agree a (encloseBy refs shape inside attr) (encloseBy refs' shape inside attr) := by
  refine .after (agree_take _) fun v => ?_
  cases v with
  | none => exact .pure rfl
  | some v =>
    refine .after (agree_requireSized _ _) fun _ => .after (agree_boxesOf hrefs _ _) fun boxes => ?_
    refine .after (agree_combined _ _ _) fun b => .after (agree_margined _ _) fun b => ?_
    exact .modify fun el fl h => h.setBox _

omit hrefs in
theorem agree_adjusted (v : String) (size : Point α) (ds : List String) :
    Agree a (adjusted v size ds) (adjusted v size ds) := by
  unfold adjusted
  split
  · exact .pure rfl
  · exact .after (agree_orFail _ _) fun _ => .pure rfl
  · exact .after (agree_orFail _ _) fun _ => .after (agree_orFail _ _) fun _ => .pure rfl
  · exact agree_failOn _ _

theorem agree_parseSize (v : String) : Agree a (parseSize refs v) (parseSize refs' v) := by
  unfold parseSize
  split
  · exact agree_orFail _ _
  · refine .after (agree_orFail _ _) fun ref => .after (agree_require _ _ _) fun _ => ?_
    exact .after (agree_boxOf hrefs _) fun b => agree_adjusted _ _ _

theorem agree_sizeByPair : Agree a (sizeByPair refs shape) (sizeByPair refs' shape) := by
  refine .after (agree_take _) fun v => ?_
  cases v with
  | none => exact .pure rfl
  | some v =>
    refine .after (agree_requireSized _ _) fun _ => .after (agree_parseSize hrefs v) fun size => ?_
    exact .modify fun el fl h => shuffled_setSize shape h _ _

omit hrefs in
theorem agree_grown (attr : String) (d : Option String) (size : α) :
    Agree a (grown attr d size) (grown attr d size) := by
  cases d with
  | none => exact .pure rfl
  | some d => exact .after (agree_orFail _ _) fun _ => .pure rfl

omit hrefs in
theorem agree_sizeByDelta : Agree a (sizeByDelta α shape) (sizeByDelta α shape) := by
  refine .after (agree_take _) fun dw => .after (agree_take _) fun dh => ?_
  split
  · exact .pure rfl
  refine .after (agree_requireSized _ _) fun _ => .read fun el fl h => ?_
  rw [sizeOf_of_shuffled shape h]
  refine .after (agree_orFail _ _) fun size => .after (agree_grown _ _ _) fun w => ?_
  exact .after (agree_grown _ _ _) fun x => .modify fun el fl h => shuffled_setSize shape h _ _

theorem agree_sizes : Agree a (sizes refs shape) (sizes refs' shape) :=
  .after (agree_encloseBy shape hrefs _ _) fun _ => .after (agree_encloseBy shape hrefs _ _) fun _ =>
    .after (agree_sizeByPair shape hrefs) fun _ => agree_sizeByDelta shape

/-! ### Places -/

theorem agree_pointOf (attr : String) (ref : Ref α) (implied : Loc) :
    Agree a (pointOf refs attr ref implied) (pointOf refs' attr ref implied) := by
  unfold pointOf
  split
  · exact agree_orFail _ _
  · exact .after (agree_boxOf hrefs _) fun _ => .after (agree_orFail _ _) fun _ => .pure rfl

theorem agree_goal (attr v : String) (loc : Loc) : Agree a (goal refs attr v loc) (goal refs' attr v loc) := by
  refine .after (agree_orFail _ _) fun ref => ?_
  split
  · refine .after (agree_boxOf hrefs _) fun b => .after (agree_orFail _ _) fun d => ?_
    split <;> exact .pure rfl
  · exact .after (agree_pointOf hrefs _ _ _) fun _ => .pure rfl

omit hrefs in
theorem agree_placeDrawn (attr : String) (l : Loc) (p : Point α) :
    Agree a (placeDrawn attr l p) (placeDrawn attr l p) := by
  refine .read fun el fl h => ?_
  rw [h.box?]
  refine .after (agree_orFail _ _) fun box => ?_
  cases box with
  | none =>
    refine .read fun el fl h => ?_
    rw [h.name]
    exact agree_failOn _ _
  | some b => exact agree_editing _ (steady_translate _ _)

omit hrefs in
theorem agree_place (attr : String) (l : Loc) (p : Point α) :
    Agree a (place shape attr l p) (place shape attr l p) := by
  have sized : Agree a (placeSized shape attr l p) (placeSized shape attr l p) := by
    refine .read fun el fl h => ?_
    rw [sizeOf_of_shuffled shape h]
    exact .after (agree_orFail _ _) fun size => .modify fun el fl h => shuffled_setExtent shape h _
  cases shape with
  | point => exact .modify fun el fl h => (h.setNumber _ _).setNumber _ _
  | line | points | path => exact agree_placeDrawn _ _ _
  | box | circle | ellipse => exact sized

theorem agree_placeEnd (attr nx ny : String) : Agree a (placeEnd refs attr nx ny) (placeEnd refs' attr nx ny) := by
  refine .after (agree_take _) fun v => ?_
  cases v with
  | none => exact .pure rfl
  | some v =>
    refine .after (agree_orFail _ _) fun ref => .after (agree_pointOf hrefs _ _ _) fun p => ?_
    exact .modify fun el fl h => (h.setNumber _ _).setNumber _ _

theorem agree_placeEnds : Agree a (placeEnds refs shape) (placeEnds refs' shape) := by
  unfold placeEnds
  split
  · exact .after (agree_placeEnd hrefs _ _ _) fun _ => agree_placeEnd hrefs _ _ _
  · exact .pure rfl

omit hrefs in
theorem agree_shiftOf (attr : String) : Agree a (shiftOf α attr) (shiftOf α attr) := by
  refine .after (agree_take _) fun v => ?_
  cases v with
  | none => exact .pure rfl
  | some v =>
    refine .after (agree_orFail _ _) fun xs => ?_
    split
    · exact .pure rfl
    · exact agree_failOn _ _

omit hrefs [Scalar α] in
theorem agree_ownLoc : Agree a ownLoc ownLoc := by
  refine .after (agree_take _) fun v => ?_
  cases v with
  | none => exact .pure rfl
  | some v => exact agree_orFail _ _

theorem agree_placeByEither (loc : Loc) (cxy xy : Option String) :
    Agree a (placeByEither refs shape loc cxy xy) (placeByEither refs' shape loc cxy xy) := by
  have place : ∀ attr v loc, Agree a (placeBy refs shape attr v loc) (placeBy refs' shape attr v loc) :=
    fun attr v loc => .after (agree_goal hrefs attr v loc) fun g => agree_place shape attr g.1 g.2
  unfold placeByEither
  split
  · exact .pure rfl
  · exact agree_failOn _ _
  · exact place _ _ _
  · exact place _ _ _

theorem agree_locate : Agree a (locate refs shape) (locate refs' shape) := by
  refine .after (agree_placeEnds shape hrefs) fun _ => .after agree_ownLoc fun loc => ?_
  refine .after (agree_take _) fun cxy => .after (agree_take _) fun xy => ?_
  refine .after (agree_placeByEither shape hrefs loc cxy xy) fun _ => .after (agree_shiftOf _) fun dx => ?_
  exact .after (agree_shiftOf _) fun dy => agree_editing _ (steady_translate _ _)

/-- Shuffled elements are resolved to shuffled elements, or fail in the same way. -/
theorem matches_resolve {σ : Type} {S : σ → σ → Prop} {el fl : Element} (h : Shuffled a el fl) :
    Matches Failure.Alike S (Shuffled a) (ofExcept (resolve refs el)) (ofExcept (resolve refs' fl)) := by
  intro s t hs
  have hhas : has el = has fl := congrArg attributes.any (funext h.has)
  rw [exec_ofExcept, exec_ofExcept]
  unfold resolve
  rw [h.shape?, hhas]
  split
  · exact .ok h hs
  split
  · exact .ok h hs
  · next shape _ _ =>
    have hrun := (agree_sizes shape hrefs).after (fun _ => agree_locate shape hrefs) el fl h
    unfold exec at hrun
    generalize ExceptT.run (do sizes refs shape; locate refs shape) el = r at hrun ⊢
    generalize ExceptT.run (do sizes refs' shape; locate refs' shape) fl = r' at hrun ⊢
    cases hrun with
    | ok _ h => exact .ok h hs
    | error he _ => exact .error he hs

end Position

end DiagramMarkup
