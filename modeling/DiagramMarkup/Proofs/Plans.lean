import Mathlib.Order.WellFoundedSet

/-!
# Plans

What of a document decides what is settled: shapes with the references they wait for, and groups, which wait for their
parts. A plan is tried with the references that are answered so far. Siblings are tried in sweeps, and a sweep that
settles none of them is the last, even if parts of a group were settled in it.

1. The state in which the sweeps end is reached from the first sweep (`settle_eq`).
2. If the last sweep learns nothing, every plan that waits does so for another, so there is a cycle or a reference to
   nothing (`exists_learned`).
3. If siblings do not wait for each other in a cycle, all are settled (`settle_of_layered`).
-/

namespace DiagramMarkup

/-! ## Sweeps -/

/-- The references that are answered. -/
abbrev Known := List String

/-- A try with what is known: whether it settles, and what is known afterwards. -/
abbrev Try := Known → Bool × Known

section Sweeps

variable {α : Type} (f : α → Try)

/-- Try one after the other; those that are not settled are left. -/
def sweep : List α → Known → List α × Known
  | [], known => ([], known)
  | x :: xs, known =>
    let r := sweep xs (f x known).2
    (if (f x known).1 then r.1 else x :: r.1, r.2)

/-- Sweep over what is left: until nothing is, or a sweep settles nothing. -/
def sweeps : Nat → List α → Known → List α × Known
  | 0, queue, known => (queue, known)
  | n + 1, queue, known =>
    if queue.isEmpty then (queue, known)
    else
      let r := sweep f queue known
      if r.1.length == queue.length then r else sweeps n r.1 r.2

/-- Settle siblings as far as sweeps do. -/
def settle (xs : List α) (known : Known) : List α × Known :=
  let r := sweep f xs known
  sweeps f r.1.length r.1 r.2

/-- The states between the sweeps. -/
inductive Reaches (xs : List α) (known : Known) : List α → Known → Prop
  | first : Reaches xs known (sweep f xs known).1 (sweep f xs known).2
  | next {queue : List α} {k : Known} (h : Reaches xs known queue k)
    (hlt : (sweep f queue k).1.length < queue.length) :
    Reaches xs known (sweep f queue k).1 (sweep f queue k).2

variable {f} {xs queue : List α} {known k : Known}

theorem sweep_map {β : Type} (g : β → α) (ys : List β) (known : Known) :
    sweep f (ys.map g) known =
      ((sweep (fun y => f (g y)) ys known).1.map g, (sweep (fun y => f (g y)) ys known).2) := by
  induction ys generalizing known with
  | nil => rfl
  | cons y ys ih =>
    simp only [List.map_cons, sweep, ih]
    split <;> rfl

theorem sweeps_map {β : Type} (g : β → α) (n : Nat) (ys : List β) (known : Known) :
    sweeps f n (ys.map g) known =
      ((sweeps (fun y => f (g y)) n ys known).1.map g, (sweeps (fun y => f (g y)) n ys known).2) := by
  induction n generalizing ys known with
  | zero => rfl
  | succ n ih =>
    simp only [sweeps, sweep_map, List.isEmpty_map, List.length_map, ih]
    split
    · rfl
    split <;> rfl

theorem settle_map {β : Type} (g : β → α) (ys : List β) (known : Known) :
    settle f (ys.map g) known =
      ((settle (fun y => f (g y)) ys known).1.map g, (settle (fun y => f (g y)) ys known).2) := by
  simp only [settle, sweep_map, List.length_map, sweeps_map]

theorem sweep_sublist (xs : List α) (known : Known) : (sweep f xs known).1.Sublist xs := by
  induction xs generalizing known with
  | nil => exact .slnil
  | cons x xs ih =>
    simp only [sweep]
    split
    · exact (ih _).cons x
    · exact (ih _).cons_cons x

theorem sweep_eq_self (h : xs.length ≤ (sweep f xs known).1.length) : (sweep f xs known).1 = xs :=
  (sweep_sublist xs known).eq_of_length_le h

theorem Reaches.sublist (h : Reaches f xs known queue k) : queue.Sublist xs := by
  induction h with
  | first => exact sweep_sublist xs known
  | next _ _ ih => exact (sweep_sublist _ _).trans ih

/-- The sweeps go on from every state that is reached. -/
theorem Reaches.settle_eq (h : Reaches f xs known queue k) :
    ∃ n, queue.length ≤ n ∧ settle f xs known = sweeps f n queue k := by
  induction h with
  | first => exact ⟨_, le_rfl, rfl⟩
  | @next queue k _ hlt ih =>
    obtain ⟨n, hn, heq⟩ := ih
    obtain ⟨n, rfl⟩ : ∃ m, n = m + 1 := ⟨n - 1, by omega⟩
    refine ⟨n, by omega, ?_⟩
    have hsome : queue.isEmpty = false := by
      rw [List.isEmpty_eq_false_iff]
      rintro rfl
      cases hlt
    have hne : ((sweep f queue k).1.length == queue.length) = false := beq_false_of_ne (Nat.ne_of_lt hlt)
    rw [heq, sweeps, hsome]
    simp only [Bool.false_eq_true, if_false, hne]

theorem Reaches.settle_eq_sweep (h : Reaches f xs known queue k) (hstuck : (sweep f queue k).1 = queue) :
    settle f xs known = sweep f queue k := by
  obtain ⟨n, hn, heq⟩ := h.settle_eq
  rw [heq]
  cases queue with
  | nil => cases n <;> rfl
  | cons x queue =>
    obtain ⟨n, rfl⟩ : ∃ m, n = m + 1 := ⟨n - 1, by simp only [List.length_cons] at hn; omega⟩
    simp only [sweeps, List.isEmpty_cons, Bool.false_eq_true, if_false, hstuck, beq_self_eq_true, if_true]

theorem Reaches.exists_stuck (h : Reaches f xs known queue k) :
    ∃ queue k, Reaches f xs known queue k ∧ (sweep f queue k).1 = queue := by
  induction hn : queue.length using Nat.strong_induction_on generalizing queue k with
  | _ n ih =>
    by_cases hlt : (sweep f queue k).1.length < queue.length
    · exact ih _ (hn ▸ hlt) (h.next hlt) rfl
    · exact ⟨queue, k, h, sweep_eq_self (not_lt.1 hlt)⟩

/-- The sweeps end in a state that is reached, and in which a sweep settles nothing. -/
theorem settle_eq (f : α → Try) (xs : List α) (known : Known) :
    ∃ queue k, Reaches f xs known queue k ∧ (sweep f queue k).1 = queue ∧
      settle f xs known = sweep f queue k := by
  obtain ⟨queue, k, h, hstuck⟩ := (Reaches.first : Reaches f xs known _ _).exists_stuck
  exact ⟨queue, k, h, hstuck, h.settle_eq_sweep hstuck⟩

/-! ### What is learned -/

/-- Tries keep what is known. -/
def Grows (f : α → Try) (xs : List α) : Prop := ∀ x ∈ xs, ∀ known, known ⊆ (f x known).2

theorem Grows.sweep (hf : Grows f xs) (known : Known) : known ⊆ (sweep f xs known).2 := by
  induction xs generalizing known with
  | nil => exact List.Subset.refl _
  | cons x xs ih =>
    obtain ⟨hx, hxs⟩ := List.forall_mem_cons.1 hf
    exact List.Subset.trans (hx known) (ih hxs _)

/-- Every one is tried in a sweep, with what is known by then, and what it learns stays known. One that is not settled is
left. -/
theorem Grows.tried (hf : Grows f xs) (known : Known) :
    ∀ x ∈ xs, ∃ k, known ⊆ k ∧ (f x k).2 ⊆ (DiagramMarkup.sweep f xs known).2 ∧
      ((f x k).1 = false → x ∈ (DiagramMarkup.sweep f xs known).1) := by
  induction xs generalizing known with
  | nil => simp
  | cons y xs ih =>
    obtain ⟨hy, hxs⟩ := List.forall_mem_cons.1 hf
    refine List.forall_mem_cons.2 ⟨⟨known, List.Subset.refl _, Grows.sweep hxs _, fun hfalse => ?_⟩, ?_⟩
    · simp [DiagramMarkup.sweep, hfalse]
    · intro x hx
      obtain ⟨k, hk, hlearned, hleft⟩ := ih hxs (f y known).2 x hx
      refine ⟨k, List.Subset.trans (hy known) hk, hlearned, fun hfalse => ?_⟩
      simp only [DiagramMarkup.sweep]
      split
      · exact hleft hfalse
      · exact List.mem_cons_of_mem _ (hleft hfalse)

/-- In a sweep that settles nothing, every try fails. -/
theorem Grows.tried_in_vain (hf : Grows f xs) (h : (DiagramMarkup.sweep f xs known).1 = xs) :
    ∀ x ∈ xs, ∃ k, known ⊆ k ∧ (f x k).1 = false ∧ (f x k).2 ⊆ (DiagramMarkup.sweep f xs known).2 := by
  induction xs generalizing known with
  | nil => simp
  | cons y xs ih =>
    obtain ⟨hy, hxs⟩ := List.forall_mem_cons.1 hf
    simp only [DiagramMarkup.sweep] at h ⊢
    split at h
    · have hlength := (sweep_sublist (f := f) xs (f y known).2).length_le
      rw [h, List.length_cons] at hlength
      omega
    · next hfalse =>
      have hrest := (List.cons.inj h).2
      refine List.forall_mem_cons.2 ⟨⟨known, List.Subset.refl _, by simpa using hfalse, Grows.sweep hxs _⟩, ?_⟩
      intro x hx
      obtain ⟨k, hk, hvain, hlearned⟩ := ih hxs hrest x hx
      exact ⟨k, List.Subset.trans (hy known) hk, hvain, hlearned⟩

theorem Reaches.grows (h : Reaches f xs known queue k) (hf : Grows f xs) : known ⊆ k := by
  induction h with
  | first => exact hf.sweep known
  | next h _ ih => exact List.Subset.trans ih (Grows.sweep (fun x hx => hf x (h.sublist.subset hx)) _)

/-- Whatever is not left was settled, and what it learned is known. -/
theorem Reaches.settled (h : Reaches f xs known queue k) (hf : Grows f xs) :
    ∀ x ∈ xs, x ∈ queue ∨ ∃ k', known ⊆ k' ∧ (f x k').1 = true ∧ (f x k').2 ⊆ k := by
  have one : ∀ {ys : List α} {k : Known}, Grows f ys → known ⊆ k → ∀ x ∈ ys, x ∈ (sweep f ys k).1 ∨
      ∃ k', known ⊆ k' ∧ (f x k').1 = true ∧ (f x k').2 ⊆ (sweep f ys k).2 := by
    intro ys k hys hk x hx
    obtain ⟨k', hk', hlearned, hleft⟩ := hys.tried k x hx
    cases hdone : (f x k').1 with
    | false => exact .inl (hleft hdone)
    | true => exact .inr ⟨k', List.Subset.trans hk hk', hdone, hlearned⟩
  induction h with
  | first => exact one hf (List.Subset.refl _)
  | @next queue k h _ ih =>
    have hqueue : Grows f queue := fun x hx => hf x (h.sublist.subset hx)
    intro x hx
    rcases ih x hx with hmem | ⟨k', hk', hdone, hlearned⟩
    · exact one hqueue (h.grows hf) x hmem
    · exact .inr ⟨k', hk', hdone, List.Subset.trans hlearned (hqueue.sweep k)⟩

/-- What the first sweep learns stays known. -/
theorem Grows.sweep_settle (hf : Grows f xs) (known : Known) :
    (DiagramMarkup.sweep f xs known).2 ⊆ (settle f xs known).2 := by
  have hfirst : ∀ {queue k}, Reaches f xs known queue k → (DiagramMarkup.sweep f xs known).2 ⊆ k := by
    intro queue k h
    induction h with
    | first => exact List.Subset.refl _
    | next h _ ih => exact List.Subset.trans ih (Grows.sweep (fun x hx => hf x (h.sublist.subset hx)) _)
  obtain ⟨queue, k, h, -, heq⟩ := settle_eq f xs known
  rw [heq]
  exact List.Subset.trans (hfirst h) (Grows.sweep (fun x hx => hf x (h.sublist.subset hx)) k)

theorem Grows.settle (hf : Grows f xs) (known : Known) : known ⊆ (settle f xs known).2 :=
  List.Subset.trans (hf.sweep known) (hf.sweep_settle known)

end Sweeps

/-! ## Plans -/

/-- A shape, with the reference by which it is named and those it waits for, or a group. -/
inductive Plan where
  | shape (self : Option String) (refs : List String)
  | group (self : Option String) (parts : List Plan)

namespace Plan

theorem induction {motive : Plan → Prop} (shape : ∀ self refs, motive (.shape self refs))
    (group : ∀ self parts, (∀ p ∈ parts, motive p) → motive (.group self parts)) (p : Plan) : motive p :=
  @Plan.rec motive (fun ps => ∀ p ∈ ps, motive p) shape group (by simp)
    (fun _ _ hp hps => List.forall_mem_cons.2 ⟨hp, hps⟩) p

/-- The reference by which the plan is named. -/
def self : Plan → Option String
  | .shape self _ => self
  | .group self _ => self

/-- The references that a shape waits for. -/
def refs : Plan → List String
  | .shape _ refs => refs
  | .group _ _ => []

/-- The parts of a group. -/
def parts : Plan → List Plan
  | .shape _ _ => []
  | .group _ parts => parts

mutual

/-- Try a plan. A group tries its parts afresh and is settled if all of them are. -/
def attempt : Plan → Try
  | .shape self refs, known => if refs.all known.contains then (true, self.toList ++ known) else (false, known)
  | .group self parts, known =>
    let r := settle id (attempts parts) known
    if r.1.isEmpty then (true, self.toList ++ r.2) else (false, r.2)

/-- Tries of several plans. -/
def attempts : List Plan → List Try
  | [] => []
  | p :: ps => attempt p :: attempts ps

end

theorem attempts_eq (ps : List Plan) : attempts ps = ps.map attempt := by
  induction ps with
  | nil => rfl
  | cons p ps ih => rw [attempts, ih, List.map_cons]

theorem attempt_group (self : Option String) (parts : List Plan) (known : Known) :
    (group self parts).attempt known =
      if (settle attempt parts known).1.isEmpty then (true, self.toList ++ (settle attempt parts known).2)
      else (false, (settle attempt parts known).2) := by
  simp only [attempt, attempts_eq, settle_map, List.isEmpty_map]
  rfl

theorem subset_attempt (p : Plan) : ∀ known, known ⊆ (p.attempt known).2 := by
  induction p using Plan.induction with
  | shape self refs =>
    intro known
    unfold attempt
    split
    · exact List.subset_append_right _ _
    · exact List.Subset.refl _
  | group self parts ih =>
    intro known
    have hgrows : known ⊆ (settle attempt parts known).2 := Grows.settle ih known
    rw [attempt_group]
    split
    · exact List.Subset.trans hgrows (List.subset_append_right _ _)
    · exact hgrows

theorem grows (ps : List Plan) : Grows attempt ps := fun p _ => p.subset_attempt

/-! ### Plans inside plans -/

mutual

/-- The plan and all plans inside it. -/
def inside : Plan → List Plan
  | .shape self refs => [.shape self refs]
  | .group self parts => .group self parts :: insideAll parts

/-- All plans inside several plans. -/
def insideAll : List Plan → List Plan
  | [] => []
  | p :: ps => inside p ++ insideAll ps

end

theorem mem_insideAll {q : Plan} {ps : List Plan} : q ∈ insideAll ps ↔ ∃ p ∈ ps, q ∈ p.inside := by
  induction ps with
  | nil => simp [insideAll]
  | cons p ps ih => simp [insideAll, ih]

theorem mem_inside {p q : Plan} : q ∈ p.inside ↔ q = p ∨ ∃ r ∈ p.parts, q ∈ r.inside := by
  cases p with
  | shape self refs => simp [inside, parts]
  | group self parts => simp [inside, Plan.parts, mem_insideAll]

theorem inside_trans {p q r : Plan} (hq : q ∈ p.inside) (hr : r ∈ q.inside) : r ∈ p.inside := by
  induction p using Plan.induction with
  | shape self refs =>
    rcases mem_inside.1 hq with rfl | ⟨p, hp, -⟩
    · exact hr
    · cases hp
  | group self parts ih =>
    rcases mem_inside.1 hq with rfl | ⟨p, hp, hq⟩
    · exact hr
    · exact mem_inside.2 (.inr ⟨p, hp, ih p hp hq⟩)

/-- A settled plan makes known everything inside it. -/
theorem known_of_attempt (p : Plan) : ∀ {known : Known}, (p.attempt known).1 = true →
    ∀ q ∈ p.inside, ∀ t, q.self = some t → t ∈ (p.attempt known).2 := by
  induction p using Plan.induction with
  | shape self refs =>
    intro known h q hq t ht
    obtain rfl : q = .shape self refs := by simpa [inside] using hq
    obtain rfl : self = some t := ht
    unfold attempt at h ⊢
    split at h
    · next hall => simp [hall]
    · cases h
  | group self parts ih =>
    intro known h q hq t ht
    obtain ⟨queue, k, hreach, hstuck, heq⟩ := settle_eq attempt parts known
    rw [attempt_group] at h ⊢
    split at h
    · next hempty =>
      rw [if_pos hempty]
      rcases mem_inside.1 hq with rfl | ⟨p, hp, hq⟩
      · obtain rfl : self = some t := ht
        simp
      · refine List.mem_append_right _ ?_
        rw [heq] at hempty ⊢
        rw [hstuck, List.isEmpty_iff] at hempty
        subst hempty
        rcases hreach.settled (grows parts) p hp with hnone | ⟨k', -, hdone, hlearned⟩
        · cases hnone
        · exact Grows.sweep (grows []) k (hlearned (ih p hp hdone q hq t ht))
    · cases h

/-! ## Why plans are left -/

/-- Of two plans of the document, the first waits for the second: a shape for what it refers to, a group for its
parts. -/
def Waits (plans : List Plan) (p q : Plan) : Prop :=
  p ∈ insideAll plans ∧ q ∈ insideAll plans ∧ ((∃ t ∈ p.refs, q.self = some t) ∨ q ∈ p.parts)

/-- No plan waits for itself by way of others. -/
def Acyclic (r : Plan → Plan → Prop) : Prop := ∀ p, ¬ Relation.TransGen r p p

/-- Every reference names a plan of the document. -/
def Answered (plans : List Plan) : Prop :=
  ∀ p ∈ insideAll plans, ∀ t ∈ p.refs, ∃ q ∈ insideAll plans, q.self = some t

/-- Without a cycle, what holds of a plan if it holds of all plans it waits for holds of all. -/
theorem Acyclic.induction {r : Plan → Plan → Prop} (h : Acyclic r) (ps : List Plan) {P : Plan → Prop}
    (step : ∀ p ∈ ps, (∀ q ∈ ps, Relation.TransGen r p q → P q) → P p) : ∀ p ∈ ps, P p := by
  have hstrict : IsStrictOrder Plan fun q p => Relation.TransGen r p q :=
    { irrefl := h, trans := fun _ _ _ hab hbc => hbc.trans hab }
  have hwf : { p | p ∈ ps }.WellFoundedOn fun q p => Relation.TransGen r p q :=
    (List.finite_toSet ps).wellFoundedOn
  intro p hp
  exact hwf.induction hp fun p hp ih => step p hp ih

/-- A plan that waits for its descendants is above them. -/
theorem transGen_of_inside {plans : List Plan} {p q : Plan} (hp : p ∈ insideAll plans) (hq : q ∈ p.inside) :
    q = p ∨ Relation.TransGen (Waits plans) p q := by
  induction p using Plan.induction with
  | shape self refs =>
    rcases mem_inside.1 hq with rfl | ⟨r, hr, -⟩
    · exact .inl rfl
    · cases hr
  | group self parts ih =>
    rcases mem_inside.1 hq with rfl | ⟨r, hr, hq⟩
    · exact .inl rfl
    obtain ⟨top, htop, hp'⟩ := mem_insideAll.1 hp
    have hrin : r ∈ insideAll plans :=
      mem_insideAll.2 ⟨top, htop, inside_trans hp' (mem_inside.2 (.inr ⟨r, hr, mem_inside.2 (.inl rfl)⟩))⟩
    have hwaits : Waits plans (.group self parts) r := ⟨hp, hrin, .inr hr⟩
    rcases ih r hr hrin hq with rfl | hbelow
    · exact .inr (.single hwaits)
    · exact .inr (.head hwaits hbelow)

/-- A plan that is left and learned nothing holds a shape that waits for something unknown. -/
theorem exists_unknown (p : Plan) : ∀ {known : Known}, (p.attempt known).1 = false →
    (p.attempt known).2 ⊆ known → ∃ s ∈ p.inside, ∃ t ∈ s.refs, t ∉ known := by
  induction p using Plan.induction with
  | shape self refs =>
    intro known h hlearned
    refine ⟨_, mem_inside.2 (.inl rfl), ?_⟩
    unfold attempt at h
    split at h
    · cases h
    · next hall => simpa [Plan.refs] using hall
  | group self parts ih =>
    intro known h hlearned
    obtain ⟨queue, k, hreach, hstuck, heq⟩ := settle_eq attempt parts known
    rw [attempt_group] at h hlearned
    split at h
    · cases h
    · next hempty =>
      rw [if_neg hempty] at hlearned
      rw [heq] at hempty hlearned
      rw [hstuck, List.isEmpty_iff] at hempty
      obtain ⟨x, hx⟩ := List.exists_mem_of_ne_nil _ hempty
      obtain ⟨k', hk', hvain, hlearned'⟩ := (grows queue).tried_in_vain hstuck x hx
      have hknown : known ⊆ k' := List.Subset.trans (hreach.grows (grows parts)) hk'
      have hxp := hreach.sublist.subset hx
      obtain ⟨s, hs, t, ht, hnot⟩ := ih x hxp hvain
        (List.Subset.trans hlearned' (List.Subset.trans hlearned hknown))
      exact ⟨s, mem_inside.2 (.inr ⟨x, hxp, hs⟩), t, ht, fun hmem => hnot (hknown hmem)⟩

/-- If trying a plan learns nothing, what is unknown inside it waits for something unknown. -/
theorem exists_unknown_inside (p : Plan) : ∀ {known : Known}, (p.attempt known).2 ⊆ known →
    ∀ q ∈ p.inside, ∀ t, q.self = some t → t ∉ known → ∃ s ∈ q.inside, ∃ u ∈ s.refs, u ∉ known := by
  induction p using Plan.induction with
  | shape self refs =>
    intro known hlearned q hq t ht hnot
    obtain rfl : q = .shape self refs := by simpa [inside] using hq
    cases hdone : (attempt (.shape self refs) known).1 with
    | true => exact absurd (hlearned (known_of_attempt _ hdone _ hq t ht)) hnot
    | false => exact exists_unknown _ hdone hlearned
  | group self parts ih =>
    intro known hlearned q hq t ht hnot
    cases hdone : (attempt (.group self parts) known).1 with
    | true => exact absurd (hlearned (known_of_attempt _ hdone _ hq t ht)) hnot
    | false =>
      rcases mem_inside.1 hq with rfl | ⟨p, hp, hq⟩
      · exact exists_unknown _ hdone hlearned
      · -- The part was tried in the first sweep over the group.
        obtain ⟨k, hk, hlearned', -⟩ := (grows parts).tried known p hp
        have hsettle : (settle attempt parts known).2 ⊆ known := by
          rw [attempt_group] at hdone hlearned
          split at hdone
          · cases hdone
          · next hempty => rwa [if_neg hempty] at hlearned
        have hnothing : (p.attempt k).2 ⊆ known :=
          List.Subset.trans hlearned' (List.Subset.trans ((grows parts).sweep_settle known) hsettle)
        obtain ⟨s, hs, u, hu, hunknown⟩ := ih p hp (List.Subset.trans hnothing hk) q hq t ht
          fun hmem => hnot (hnothing (p.subset_attempt k hmem))
        exact ⟨s, hs, u, hu, fun hmem => hunknown (hk hmem)⟩

/-- Where no plan waits for itself and every reference names a plan, the last sweep over plans that are left learns
something: it settles a part of a group, but no whole plan. -/
theorem exists_learned {plans queue : List Plan} {k : Known} (hacyclic : Acyclic (Waits plans))
    (hanswered : Answered plans) (hreach : Reaches attempt plans [] queue k) (hqueue : queue ≠ [])
    (hstuck : (sweep attempt queue k).1 = queue) : ¬ (sweep attempt queue k).2 ⊆ k := by
  intro hnothing
  have htried : ∀ p ∈ queue, ∃ k', k ⊆ k' ∧ (p.attempt k').1 = false ∧ (p.attempt k').2 ⊆ k := by
    intro p hp
    obtain ⟨k', hk', hvain, hlearned⟩ := (grows queue).tried_in_vain hstuck p hp
    exact ⟨k', hk', hvain, List.Subset.trans hlearned hnothing⟩
  -- Whatever waits for something unknown waits for something that does so, too.
  have hnone : ∀ s ∈ insideAll plans, ¬ ∃ t ∈ s.refs, t ∉ k := by
    refine hacyclic.induction _ fun s hs ih => ?_
    rintro ⟨t, ht, hnot⟩
    obtain ⟨q, hq, hself⟩ := hanswered s hs t ht
    have hwaits : Waits plans s q := ⟨hs, hq, .inl ⟨t, ht, hself⟩⟩
    obtain ⟨top, htop, hqtop⟩ := mem_insideAll.1 hq
    rcases hreach.settled (grows plans) top htop with hleft | ⟨k', -, hdone, hlearned⟩
    · obtain ⟨k', hk', -, hnothing'⟩ := htried top hleft
      obtain ⟨r, hr, u, hu, hunknown⟩ := exists_unknown_inside top (List.Subset.trans hnothing' hk') q hqtop t
        hself fun hmem => hnot (hnothing' (top.subset_attempt k' hmem))
      have hrin : r ∈ insideAll plans := mem_insideAll.2 ⟨top, htop, inside_trans hqtop hr⟩
      have hbelow : Relation.TransGen (Waits plans) s r := by
        rcases transGen_of_inside hq hr with rfl | hbelow
        · exact .single hwaits
        · exact .head hwaits hbelow
      exact ih r hrin hbelow ⟨u, hu, fun hmem => hunknown (hk' hmem)⟩
    · exact hnot (hlearned (known_of_attempt top hdone q hqtop t hself))
  obtain ⟨p, hp⟩ := List.exists_mem_of_ne_nil _ hqueue
  obtain ⟨k', hk', hvain, hnothing'⟩ := htried p hp
  obtain ⟨s, hs, t, ht, hnot⟩ := exists_unknown p hvain (List.Subset.trans hnothing' hk')
  exact hnone s (mem_insideAll.2 ⟨p, hreach.sublist.subset hp, hs⟩) ⟨t, ht, fun hmem => hnot (hk' hmem)⟩

/-- The sweeps end too early: one of them settles no plan that is left, and is the last, though it learns something. -/
def Blocked (plans : List Plan) : Prop :=
  ∃ queue k, Reaches attempt plans [] queue k ∧ queue ≠ [] ∧ (sweep attempt queue k).1 = queue ∧
    ¬ (sweep attempt queue k).2 ⊆ k

/-- Without cycles and unknown references, plans are left exactly if the sweeps end too early. -/
theorem settle_ne_nil_iff {plans : List Plan} (hacyclic : Acyclic (Waits plans)) (hanswered : Answered plans) :
    (settle attempt plans []).1 ≠ [] ↔ Blocked plans := by
  constructor
  · intro hleft
    obtain ⟨queue, k, hreach, hstuck, heq⟩ := settle_eq attempt plans []
    rw [heq, hstuck] at hleft
    exact ⟨queue, k, hreach, hleft, hstuck, exists_learned hacyclic hanswered hreach hleft hstuck⟩
  · rintro ⟨queue, k, hreach, hleft, hstuck, -⟩
    rwa [hreach.settle_eq_sweep hstuck, hstuck]

/-! ## Layers -/

/-- Of two siblings, something inside the first waits for something inside the second. -/
def Leans (siblings : List Plan) (p q : Plan) : Prop :=
  p ∈ siblings ∧ q ∈ siblings ∧ p ≠ q ∧ ∃ s ∈ p.inside, ∃ t ∈ s.refs, ∃ r ∈ q.inside, r.self = some t

/-- Nowhere do siblings lean on each other in a cycle. -/
def Layered (plans : List Plan) : Prop :=
  Acyclic (Leans plans) ∧ ∀ p ∈ insideAll plans, Acyclic (Leans p.parts)

/-- The references inside the plan are known, or name something inside it. -/
def Ready (known : Known) (p : Plan) : Prop :=
  ∀ s ∈ p.inside, ∀ t ∈ s.refs, t ∈ known ∨ ∃ r ∈ p.inside, r.self = some t

/-- Siblings that do not lean on each other in a cycle are settled, if each of them is when it is ready. -/
theorem settle_of_ready {siblings : List Plan} {known : Known} (hacyclic : Acyclic (Leans siblings))
    (hready : ∀ p ∈ siblings, ∀ known, p.Ready known → (p.attempt known).1 = true)
    (hrefs : ∀ p ∈ siblings, ∀ s ∈ p.inside, ∀ t ∈ s.refs,
      t ∈ known ∨ ∃ q ∈ siblings, ∃ r ∈ q.inside, r.self = some t) :
    (settle attempt siblings known).1 = [] := by
  obtain ⟨queue, k, hreach, hstuck, heq⟩ := settle_eq attempt siblings known
  have hnone : ∀ p ∈ siblings, p ∉ queue := by
    refine hacyclic.induction _ fun p hp ih hleft => ?_
    obtain ⟨k', hk', hvain, -⟩ := (grows queue).tried_in_vain hstuck p hleft
    have hknown : known ⊆ k' := List.Subset.trans (hreach.grows (grows siblings)) hk'
    have hp' : p.Ready k' := by
      intro s hs t ht
      rcases hrefs p hp s hs t ht with hmem | ⟨q, hq, r, hr, hself⟩
      · exact .inl (hknown hmem)
      by_cases hpq : p = q
      · exact .inr ⟨r, hpq ▸ hr, hself⟩
      · have hleans : Leans siblings p q := ⟨hp, hq, hpq, s, hs, t, ht, r, hr, hself⟩
        rcases hreach.settled (grows siblings) q hq with hleft | ⟨k₁, -, hdone, hlearned⟩
        · exact absurd hleft (ih q hq (.single hleans))
        · exact .inl (hk' (hlearned (known_of_attempt q hdone r hr t hself)))
    rw [hready p hp k' hp'] at hvain
    cases hvain
  rw [heq, hstuck]
  exact List.eq_nil_iff_forall_not_mem.2 fun p hp => hnone p (hreach.sublist.subset hp) hp

theorem attempt_of_ready (p : Plan) : (∀ q ∈ p.inside, Acyclic (Leans q.parts)) →
    (∀ q ∈ p.inside, ∀ s ∈ q.inside, ∀ t ∈ s.refs, q.self ≠ some t) →
    ∀ known, p.Ready known → (p.attempt known).1 = true := by
  induction p using Plan.induction with
  | shape self refs =>
    intro _ hself known hready
    have hmem : Plan.shape self refs ∈ inside (.shape self refs) := mem_inside.2 (.inl rfl)
    have hall : refs.all known.contains = true := by
      rw [List.all_eq_true]
      intro t ht
      rcases hready _ hmem t ht with hknown | ⟨r, hr, heq⟩
      · simpa using hknown
      · obtain rfl : r = .shape self refs := by simpa [inside] using hr
        exact absurd heq (hself _ hmem _ hmem t ht)
    unfold attempt
    rw [if_pos hall]
  | group self parts ih =>
    intro hlayers hself known hready
    have hmem : Plan.group self parts ∈ inside (.group self parts) := mem_inside.2 (.inl rfl)
    have hpart : ∀ p ∈ parts, ∀ q ∈ p.inside, q ∈ inside (.group self parts) :=
      fun p hp q hq => mem_inside.2 (.inr ⟨p, hp, hq⟩)
    have hsettle : (settle attempt parts known).1 = [] := by
      refine settle_of_ready (hlayers _ hmem) (fun p hp => ?_) fun p hp s hs t ht => ?_
      · exact ih p hp (fun q hq => hlayers q (hpart p hp q hq)) fun q hq => hself q (hpart p hp q hq)
      · rcases hready s (hpart p hp s hs) t ht with hknown | ⟨r, hr, heq⟩
        · exact .inl hknown
        rcases mem_inside.1 hr with rfl | ⟨q, hq, hr⟩
        · exact absurd heq (hself _ hmem s (hpart p hp s hs) t ht)
        · exact .inr ⟨q, hq, r, hr, heq⟩
    rw [attempt_group, hsettle]
    rfl

/-- Where siblings do not lean on each other in a cycle, all plans are settled. -/
theorem settle_of_layered {plans : List Plan} (hacyclic : Acyclic (Waits plans)) (hanswered : Answered plans)
    (hlayered : Layered plans) : (settle attempt plans []).1 = [] := by
  have hin : ∀ p ∈ plans, ∀ q ∈ p.inside, q ∈ insideAll plans := fun p hp q hq => mem_insideAll.2 ⟨p, hp, hq⟩
  refine settle_of_ready hlayered.1 (fun p hp => ?_) fun p hp s hs t ht => ?_
  · refine attempt_of_ready p (fun q hq => hlayered.2 q (hin p hp q hq)) fun q hq s hs t ht heq => ?_
    have hwaits : Waits plans s q :=
      ⟨hin p hp s (inside_trans hq hs), hin p hp q hq, .inl ⟨t, ht, heq⟩⟩
    rcases transGen_of_inside (hin p hp q hq) hs with rfl | hbelow
    · exact hacyclic s (.single hwaits)
    · exact hacyclic q (hbelow.tail hwaits)
  · obtain ⟨r, hr, heq⟩ := hanswered s (hin p hp s hs) t ht
    obtain ⟨q, hq, hr⟩ := mem_insideAll.1 hr
    exact .inr ⟨q, hq, r, hr, heq⟩

end Plan

end DiagramMarkup
