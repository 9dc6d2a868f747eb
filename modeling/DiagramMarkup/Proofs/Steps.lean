import DiagramMarkup.Compile.Siblings

/-!
# Runs of steps

A step works on a state and may fail; `exec` runs it. The steps of the compilation work on the context, those that
settle a position on an element. The first part says what the combinators of steps do to a run. The second part is a
small logic over runs: `Ensures I m Q` says that `m` keeps the invariant `I` of the state on every way out, and that
a result of `m` satisfies `Q`.
-/

namespace DiagramMarkup

section Runs

variable {ε σ α β : Type}

/-- The outcome of a step, and the state it leaves. -/
def exec (m : ExceptT ε (StateM σ) α) (s : σ) : Except ε α × σ := m.run s

/-! ## Runs of the combinators -/

@[simp] theorem exec_pure (a : α) (s : σ) :
    exec (pure a : ExceptT ε (StateM σ) α) s = (.ok a, s) := rfl

@[simp] theorem exec_throw (e : ε) (s : σ) :
    exec (throw e : ExceptT ε (StateM σ) α) s = (.error e, s) := rfl

@[simp] theorem exec_get (s : σ) : exec (get : ExceptT ε (StateM σ) σ) s = (.ok s, s) := rfl

@[simp] theorem exec_set (s t : σ) :
    exec (set t : ExceptT ε (StateM σ) Unit) s = (.ok (), t) := rfl

@[simp] theorem exec_modify (f : σ → σ) (s : σ) :
    exec (modify f : ExceptT ε (StateM σ) Unit) s = (.ok (), f s) := rfl

theorem exec_bind (m : ExceptT ε (StateM σ) α) (f : α → ExceptT ε (StateM σ) β) (s : σ) :
    exec (m >>= f) s = match exec m s with
      | (.ok a, t) => exec (f a) t
      | (.error e, t) => (.error e, t) := by
  unfold exec ExceptT.run
  simp only [bind, ExceptT.bind, ExceptT.mk, StateT.bind, ExceptT.bindCont]
  rcases m s with ⟨_ | a, t⟩ <;> rfl

theorem exec_bind_ok {m : ExceptT ε (StateM σ) α} {f : α → ExceptT ε (StateM σ) β} {s t : σ}
    {a : α} (h : exec m s = (.ok a, t)) : exec (m >>= f) s = exec (f a) t := by
  rw [exec_bind, h]

theorem exec_bind_error {m : ExceptT ε (StateM σ) α} {f : α → ExceptT ε (StateM σ) β} {s t : σ}
    {e : ε} (h : exec m s = (.error e, t)) : exec (m >>= f) s = (.error e, t) := by
  rw [exec_bind, h]

/-- A sequence that succeeds succeeds in both parts. -/
theorem exec_bind_eq_ok {m : ExceptT ε (StateM σ) α} {f : α → ExceptT ε (StateM σ) β}
    {s u : σ} {b : β} (h : exec (m >>= f) s = (.ok b, u)) :
    ∃ a t, exec m s = (.ok a, t) ∧ exec (f a) t = (.ok b, u) := by
  rw [exec_bind] at h
  rcases hm : exec m s with ⟨_ | a, t⟩ <;> rw [hm] at h
  · cases h
  · exact ⟨a, t, rfl, h⟩

/-- A sequence of results is a result only if both parts are. -/
theorem except_bind_eq_ok {r : Except ε α} {f : α → Except ε β} {b : β} (h : r >>= f = .ok b) :
    ∃ a, r = .ok a ∧ f a = .ok b := by
  cases r with
  | error e => cases h
  | ok a => exact ⟨a, rfl, h⟩

theorem exec_map (f : α → β) (m : ExceptT ε (StateM σ) α) (s : σ) :
    exec (f <$> m) s = match exec m s with
      | (.ok a, t) => (.ok (f a), t)
      | (.error e, t) => (.error e, t) := by
  unfold exec ExceptT.run
  simp only [Functor.map, ExceptT.map, ExceptT.mk, bind, StateT.bind]
  rcases m s with ⟨_ | a, t⟩ <;> rfl

@[simp] theorem exec_ofExcept (r : Except ε α) (s : σ) :
    exec (ofExcept r : ExceptT ε (StateM σ) α) s = (r, s) := by cases r <;> rfl

theorem exec_mapM_cons (f : α → ExceptT ε (StateM σ) β) (a : α) (as : List α) (s : σ) :
    exec ((a :: as).mapM f) s = exec (do let b ← f a; let bs ← as.mapM f; pure (b :: bs)) s := by
  rw [List.mapM_cons]

end Runs

namespace Compile

variable {α : Type}

@[simp] theorem exec_bracket (m : Compile α) (f : Context → Context) (c : Context) :
    exec (bracket m f) c = ((exec m c).1, f (exec m c).2) := rfl

theorem exec_update (f : Context → Except Failure Context) (c : Context) :
    exec (update f) c = match f c with
      | .ok d => (.ok (), d)
      | .error e => (.error e, c) := by
  unfold update
  rw [exec_bind, exec_get]
  simp only
  cases f c <;> rfl

/-- An attempt turns a deferral into a result; other failures pass. -/
theorem exec_attempt (m : Compile α) (c : Context) :
    exec (attempt m) c = match exec m c with
      | (.ok a, d) => (.ok (.ok a), d)
      | (.error (.deferred e), d) => (.ok (.error e), d)
      | (.error f, d) => (.error f, d) := by
  unfold attempt exec ExceptT.run
  simp only [tryCatch, tryCatchThe, MonadExceptOf.tryCatch, ExceptT.tryCatch, bind, ExceptT.bind,
    ExceptT.mk, StateT.bind, ExceptT.bindCont]
  rcases m c with ⟨(_ | _ | _) | a, d⟩ <;> rfl

theorem exec_evaluating (el : Option Element) (attr : String)
    (f : Context → Except Expr.Error α × Context) (c : Context) :
    exec (evaluating el attr f) c = match f c with
      | (.ok a, d) => (.ok a, d)
      | (.error e, d) => (.error (.expr el attr e), d) := by
  unfold evaluating
  rw [exec_bind, exec_get]
  simp only
  rcases f c with ⟨_ | a, d⟩ <;> rfl

end Compile

/-! ## Changes of the context that may fail -/

namespace Context

variable {c d : Context}

theorem enter_eq_ok {el : Option Element} (h : c.enter el = .ok d) :
    d = { c with depth := c.depth + 1 } := by
  simp only [enter] at h
  split at h <;> cases h
  rfl

theorem checkVar_eq_ok_iff {name value : String} :
    c.checkVar name value = .ok () ↔ (byteSize value : Int) ≤ c.options.varLimit := by
  unfold checkVar
  split
  · next h => exact ⟨nofun, fun hle => absurd h (Int.not_lt.2 hle)⟩
  · next h => exact ⟨fun _ => Int.not_lt.1 h, fun _ => rfl⟩

theorem forM_checkVar_eq_ok_iff {f : Frame} : f.forM (fun p => c.checkVar p.1 p.2) = .ok () ↔
    ∀ p ∈ f, (byteSize p.2 : Int) ≤ c.options.varLimit := by
  induction f with
  | nil => exact ⟨fun _ => nofun, fun _ => rfl⟩
  | cons p rest ih =>
    have hp : c.checkVar p.1 p.2 = .ok () ↔ _ := checkVar_eq_ok_iff
    rw [List.forall_mem_cons, ← ih, ← hp]
    change (c.checkVar p.1 p.2 >>= fun _ => rest.forM _) = _ ↔ _
    cases c.checkVar p.1 p.2 with
    | error e => exact ⟨nofun, fun h => h.1⟩
    | ok u => exact ⟨fun h => ⟨rfl, h⟩, fun h => h.2⟩

/-- A frame is opened if none of its values is too long, in whatever order they are checked. -/
theorem pushFrame_eq_ok_iff {vars : Frame} : c.pushFrame vars = .ok d ↔
    (∀ p ∈ vars, (byteSize p.2 : Int) ≤ c.options.varLimit) ∧ d = { c with scope := c.scope.push vars } := by
  have met : (∀ p ∈ vars, (byteSize p.2 : Int) ≤ c.options.varLimit) ↔
      (c.chance.visit.order vars).forM (fun p => c.checkVar p.1 p.2) = .ok () := by
    rw [forM_checkVar_eq_ok_iff]
    exact forall_congr' fun p => imp_congr_left (c.chance.visit.perm vars).mem_iff.symm
  rw [met]
  unfold pushFrame
  cases (c.chance.visit.order vars).forM fun p => c.checkVar p.1 p.2 with
  | error e => exact ⟨nofun, fun h => nomatch h.1⟩
  | ok u => exact ⟨fun h => ⟨rfl, (Except.ok.inj h).symm⟩, fun h => congrArg Except.ok h.2.symm⟩

theorem pushFrame_eq_ok {vars : Frame} (h : c.pushFrame vars = .ok d) :
    d = { c with scope := c.scope.push vars } := (pushFrame_eq_ok_iff.1 h).2

theorem setVar_eq_ok {name value : String} (h : c.setVar name value = .ok d) :
    d = { c with scope := c.scope.setVar name value } := by
  unfold setVar at h
  cases hv : c.checkVar name value with
  | error e => rw [hv] at h; cases h
  | ok u =>
    rw [hv] at h
    cases h
    rfl

theorem chance_markSeen (c : Context) (id : String) : (c.markSeen id).chance = c.chance := by
  unfold markSeen
  split <;> rfl

theorem chance_registerWritten (c : Context) (id : String) (n : Node) :
    (c.registerWritten id n).chance = c.chance := by
  unfold registerWritten
  split <;> rfl

theorem setOption_eq_ok {name value : String} (h : c.setOption name value = .ok d) :
    ∃ o dice, d = { c with options := o, dice := dice } := by
  unfold setOption at h
  cases ho : c.options.set name value with
  | error e => rw [ho] at h; cases h
  | ok o =>
    rw [ho] at h
    cases h
    exact ⟨_, _, rfl⟩

end Context

/-! ## What steps ensure -/

section Ensures

variable {ε σ α β : Type} {I : σ → Prop} {m : ExceptT ε (StateM σ) α} {Q R : α → Prop}

/-- The step keeps the invariant on every way out, and its result has the property. -/
def Ensures (I : σ → Prop) (m : ExceptT ε (StateM σ) α) (Q : α → Prop) : Prop :=
  ∀ s, I s → I (exec m s).2 ∧ ∀ a, (exec m s).1 = .ok a → Q a

namespace Ensures

theorem pure {a : α} (h : Q a) : Ensures I (pure a : ExceptT ε (StateM σ) α) Q := by
  intro s hs
  refine ⟨hs, fun b hb => ?_⟩
  cases hb
  exact h

theorem throw {e : ε} : Ensures I (throw e : ExceptT ε (StateM σ) α) Q :=
  fun _ hs => ⟨hs, fun _ h => nomatch h⟩

theorem get : Ensures I (get : ExceptT ε (StateM σ) σ) I := by
  intro s hs
  refine ⟨hs, fun b hb => ?_⟩
  cases hb
  exact hs

theorem modify {f : σ → σ} (h : ∀ s, I s → I (f s)) :
    Ensures I (modify f : ExceptT ε (StateM σ) Unit) fun _ => True :=
  fun s hs => ⟨h s hs, fun _ _ => trivial⟩

theorem set {t : σ} (h : I t) : Ensures I (set t : ExceptT ε (StateM σ) Unit) fun _ => True :=
  fun _ _ => ⟨h, fun _ _ => trivial⟩

theorem ofExcept {r : Except ε α} (h : ∀ a, r = .ok a → Q a) :
    Ensures I (ofExcept r : ExceptT ε (StateM σ) α) Q := by
  intro s hs
  rw [exec_ofExcept]
  exact ⟨hs, h⟩

theorem bind {f : α → ExceptT ε (StateM σ) β} {Q : β → Prop} (hm : Ensures I m R)
    (hf : ∀ a, R a → Ensures I (f a) Q) : Ensures I (m >>= f) Q := by
  intro s hs
  obtain ⟨ht, hr⟩ := hm s hs
  rw [exec_bind]
  rcases h : exec m s with ⟨_ | a, t⟩ <;> rw [h] at ht hr
  · exact ⟨ht, fun _ hb => nomatch hb⟩
  · exact hf a (hr a rfl) t ht

theorem map {f : α → β} {Q : β → Prop} (hm : Ensures I m R) (hf : ∀ a, R a → Q (f a)) :
    Ensures I (f <$> m) Q := by
  intro s hs
  obtain ⟨ht, hr⟩ := hm s hs
  rw [exec_map]
  rcases h : exec m s with ⟨_ | a, t⟩ <;> rw [h] at ht hr
  · exact ⟨ht, fun _ hb => nomatch hb⟩
  · refine ⟨ht, fun b hb => ?_⟩
    cases hb
    exact hf a (hr a rfl)

theorem mono (hm : Ensures I m R) (h : ∀ a, R a → Q a) : Ensures I m Q :=
  fun s hs => ⟨(hm s hs).1, fun a ha => h a ((hm s hs).2 a ha)⟩

/-- A step that leaves the state as it was keeps every invariant. -/
theorem of_eq (h : ∀ s, (exec m s).2 = s) : Ensures I m fun _ => True :=
  fun s hs => ⟨(h s).symm ▸ hs, fun _ _ => trivial⟩

theorem mapM {f : α → ExceptT ε (StateM σ) β} {Q : β → Prop} {as : List α}
    (h : ∀ a ∈ as, Ensures I (f a) Q) : Ensures I (as.mapM f) fun bs => ∀ b ∈ bs, Q b := by
  induction as with
  | nil =>
    rw [List.mapM_nil]
    exact .pure (by simp)
  | cons a as ih =>
    rw [List.mapM_cons]
    refine .bind (h a (by simp)) fun b hb => ?_
    refine .bind (ih fun a ha => h a (by simp [ha])) fun bs hbs => ?_
    exact .pure (by simpa using ⟨hb, hbs⟩)

theorem forM {f : α → ExceptT ε (StateM σ) PUnit} {as : List α}
    (h : ∀ a ∈ as, Ensures I (f a) fun _ => True) : Ensures I (as.forM f) fun _ => True := by
  induction as with
  | nil => exact .pure trivial
  | cons a as ih =>
    show Ensures I (f a >>= fun _ => as.forM f) _
    exact .bind (h a (by simp)) fun _ _ => ih fun a ha => h a (by simp [ha])

theorem foldlM {f : β → α → ExceptT ε (StateM σ) β} {Q : β → Prop} {as : List α}
    (h : ∀ b, Q b → ∀ a ∈ as, Ensures I (f b a) Q) {b : β} (hb : Q b) :
    Ensures I (as.foldlM f b) Q := by
  induction as generalizing b with
  | nil =>
    rw [List.foldlM_nil]
    exact .pure hb
  | cons a as ih =>
    rw [List.foldlM_cons]
    exact .bind (h b hb a (by simp)) fun b' hb' =>
      ih (fun b hb a ha => h b hb a (by simp [ha])) hb'

end Ensures

end Ensures

/-! ## How steps fail -/

section Fails

variable {ε σ α β : Type} {E : ε → Prop} {m : ExceptT ε (StateM σ) α}

/-- Every failure of the step has the property. -/
def Fails (E : ε → Prop) (m : ExceptT ε (StateM σ) α) : Prop :=
  ∀ s e, (exec m s).1 = .error e → E e

namespace Fails

theorem pure {a : α} : Fails E (pure a : ExceptT ε (StateM σ) α) := fun _ _ h => nomatch h

theorem throw {e : ε} (h : E e) : Fails E (throw e : ExceptT ε (StateM σ) α) := by
  intro s f hf
  cases hf
  exact h

theorem get : Fails E (get : ExceptT ε (StateM σ) σ) := fun _ _ h => nomatch h

theorem modify {f : σ → σ} : Fails E (modify f : ExceptT ε (StateM σ) Unit) :=
  fun _ _ h => nomatch h

theorem set {t : σ} : Fails E (set t : ExceptT ε (StateM σ) Unit) := fun _ _ h => nomatch h

theorem bind {f : α → ExceptT ε (StateM σ) β} (hm : Fails E m) (hf : ∀ a, Fails E (f a)) :
    Fails E (m >>= f) := by
  intro s e he
  rw [exec_bind] at he
  rcases h : exec m s with ⟨_ | a, t⟩ <;> rw [h] at he
  · cases he
    exact hm s e (by rw [h])
  · exact hf a t e he

theorem mapM {f : α → ExceptT ε (StateM σ) β} (h : ∀ a, Fails E (f a)) (as : List α) :
    Fails E (as.mapM f) := by
  induction as with
  | nil => exact .pure
  | cons a as ih =>
    rw [List.mapM_cons]
    exact .bind (h a) fun _ => .bind ih fun _ => .pure

theorem forM {f : α → ExceptT ε (StateM σ) PUnit} (h : ∀ a, Fails E (f a)) (as : List α) :
    Fails E (as.forM f) := by
  induction as with
  | nil => exact .pure
  | cons a as ih => exact .bind (h a) fun _ => ih

theorem foldlM {f : β → α → ExceptT ε (StateM σ) β} (h : ∀ b a, Fails E (f b a)) (as : List α)
    (b : β) : Fails E (as.foldlM f b) := by
  induction as generalizing b with
  | nil => exact .pure
  | cons a as ih =>
    rw [List.foldlM_cons]
    exact .bind (h b a) fun b => ih b

theorem ofExcept {r : Except ε α} (h : ∀ e, r = .error e → E e) :
    Fails E (ofExcept r : ExceptT ε (StateM σ) α) := by
  intro s e he
  rw [exec_ofExcept] at he
  exact h e he

end Fails

end Fails

/-- The failure is no deferral. -/
def Failure.Final (f : Failure) : Prop := ∀ d, f ≠ .deferred d

theorem Failure.final_error (e : DocError) : Failure.Final (.error e) := nofun

/-! ## Steps that wait for nothing -/

section Local

variable {σ α β : Type} {I : σ → Prop} {m : ExceptT Failure (StateM σ) α} {Q R : α → Prop}

/-- From a state with the invariant, the step keeps it, its result has the property, and it is not deferred. -/
def Local (I : σ → Prop) (m : ExceptT Failure (StateM σ) α) (Q : α → Prop) : Prop :=
  ∀ s, I s → I (exec m s).2 ∧ match (exec m s).1 with
    | .ok a => Q a
    | .error e => e.Final

namespace Local

theorem ensures (h : Local I m Q) : Ensures I m Q := by
  intro s hs
  obtain ⟨hi, hr⟩ := h s hs
  refine ⟨hi, fun a ha => ?_⟩
  rw [ha] at hr
  exact hr

theorem mono (h : Local I m R) (hq : ∀ a, R a → Q a) : Local I m Q := by
  intro s hs
  obtain ⟨hi, hr⟩ := h s hs
  refine ⟨hi, ?_⟩
  split at hr
  · exact hq _ hr
  · exact hr

theorem pure {a : α} (h : Q a) : Local I (pure a) Q := fun _ hs => ⟨hs, h⟩

theorem throw {e : Failure} (h : e.Final) : Local I (throw e) Q := fun _ hs => ⟨hs, h⟩

theorem get : Local I get I := fun _ hs => ⟨hs, hs⟩

theorem set {t : σ} (h : I t) : Local I (set t) fun _ => True := fun _ _ => ⟨h, trivial⟩

theorem modify {f : σ → σ} (h : ∀ s, I s → I (f s)) : Local I (modify f) fun _ => True :=
  fun s hs => ⟨h s hs, trivial⟩

theorem bind {f : α → ExceptT Failure (StateM σ) β} {Q : β → Prop} (hm : Local I m R)
    (hf : ∀ a, R a → Local I (f a) Q) : Local I (m >>= f) Q := by
  intro s hs
  obtain ⟨ht, hr⟩ := hm s hs
  rw [exec_bind]
  rcases h : exec m s with ⟨_ | a, t⟩ <;> rw [h] at ht hr
  · exact ⟨ht, hr⟩
  · exact hf a hr t ht

end Local

end Local

/-! ## Steps that have a result -/

section Succeeds

variable {ε σ α β : Type} {I : σ → Prop} {m : ExceptT ε (StateM σ) α} {Q R : α → Prop}

/-- From a state with the invariant the step has a result with the property, and keeps the invariant. -/
def Succeeds (I : σ → Prop) (m : ExceptT ε (StateM σ) α) (Q : α → Prop) : Prop :=
  ∀ s, I s → ∃ a t, exec m s = (.ok a, t) ∧ I t ∧ Q a

namespace Succeeds

theorem pure {a : α} (h : Q a) : Succeeds I (pure a : ExceptT ε (StateM σ) α) Q :=
  fun s hs => ⟨a, s, rfl, hs, h⟩

theorem bind {f : α → ExceptT ε (StateM σ) β} {Q : β → Prop} (hm : Succeeds I m R)
    (hf : ∀ a, R a → Succeeds I (f a) Q) : Succeeds I (m >>= f) Q := by
  intro s hs
  obtain ⟨a, t, hrun, ht, ha⟩ := hm s hs
  rw [exec_bind_ok hrun]
  exact hf a ha t ht

theorem mapM {f : α → ExceptT ε (StateM σ) β} {Q : β → Prop} {as : List α}
    (h : ∀ a ∈ as, Succeeds I (f a) Q) : Succeeds I (as.mapM f) fun bs => ∀ b ∈ bs, Q b := by
  induction as with
  | nil =>
    rw [List.mapM_nil]
    exact .pure (by simp)
  | cons a as ih =>
    obtain ⟨ha, has⟩ := List.forall_mem_cons.1 h
    rw [List.mapM_cons]
    refine .bind ha fun b hb => .bind (ih has) fun bs hbs => ?_
    exact .pure (List.forall_mem_cons.2 ⟨hb, hbs⟩)

end Succeeds

end Succeeds

section EnsuresCompile

open Compile

variable {α : Type} {I : Context → Prop} {m : Compile α} {Q : α → Prop}

theorem Ensures.bracket {f : Context → Context} (hm : Ensures I m Q) (hf : ∀ c, I c → I (f c)) :
    Ensures I (Compile.bracket m f) Q := by
  intro c hc
  rw [exec_bracket]
  exact ⟨hf _ (hm c hc).1, (hm c hc).2⟩

theorem Ensures.update {f : Context → Except Failure Context}
    (h : ∀ c d, I c → f c = .ok d → I d) : Ensures I (Compile.update f) fun _ => True := by
  intro c hc
  rw [exec_update]
  rcases hf : f c with e | d
  · exact ⟨hc, fun _ _ => trivial⟩
  · exact ⟨h c d hc hf, fun _ _ => trivial⟩

theorem Ensures.attempt (hm : Ensures I m Q) :
    Ensures I (Compile.attempt m) fun r => ∀ a, r = .ok a → Q a := by
  intro c hc
  obtain ⟨hd, hq⟩ := hm c hc
  rw [exec_attempt]
  rcases h : exec m c with ⟨(_ | _ | _) | a, d⟩ <;> rw [h] at hd hq
  · refine ⟨hd, fun r hr => ?_⟩
    cases hr
    exact fun _ ha => nomatch ha
  · exact ⟨hd, fun _ hr => nomatch hr⟩
  · exact ⟨hd, fun _ hr => nomatch hr⟩
  · refine ⟨hd, fun r hr => ?_⟩
    cases hr
    intro b hb
    cases hb
    exact hq a rfl

end EnsuresCompile

/-! ## Nodes that wait -/

namespace Sibling

variable {P : Pending → Prop}

/-- If the node waits, it does so with the property. -/
def Waiting (P : Pending → Prop) (s : Sibling) : Prop := ∀ p, s.pending? = some p → P p

theorem waiting_ofAttempt {order : Order} {wait : Deferral → Pending} (h : ∀ why, P (wait why))
    (r : Except Deferral Drawing) : (ofAttempt order wait r).Waiting P := by
  intro p hp
  cases r with
  | ok d => cases hp
  | error why =>
    cases hp
    exact h why

theorem of_mem_pendings {ss : List Sibling} (h : ∀ s ∈ ss, s.Waiting P) {p : Pending}
    (hp : p ∈ ss.filterMap pending?) : P p := by
  obtain ⟨s, hs, hp⟩ := List.mem_filterMap.1 hp
  exact h s hs p hp

end Sibling

end DiagramMarkup
