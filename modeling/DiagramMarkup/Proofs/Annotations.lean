import DiagramMarkup.Proofs.Shorthands
import DiagramMarkup.Proofs.Skeletons

/-!
# Annotations

On request a comment in front of every drawing names the element it comes from. Annotations are no part of the drawing:
a document is compiled with and without them alike, whatever the random numbers. The values of a frame are checked in no
particular order. If this order is different in the two runs, then the error may name another value that is too long, and
all else is the same.

1. Two runs are compared step by step, from contexts that are the same but for the request and the order of checks
   (`Parallel`). Most steps do not look at these, and give the same result in both runs.
2. Drawings have the same skeleton in both runs. Each role puts its drawing together from the skeletons of its content,
   and by induction over the levels all content is drawn alike (`heedless_drawElement`).
3. The root sees skeletons only, and streams with the same skeleton spell the same trees (`compile_annotated`).
-/

namespace DiagramMarkup

open Element Compile

namespace Options

/-- The options with annotations requested or not. -/
def annotated (b : Bool) (o : Options) : Options := { o with debug := b }

/-- An option is changed in the same way whether annotations are requested or not, unless it is the request itself. -/
theorem assign_annotated (o : Options) (b : Bool) (name text : String) :
    ∃ b', (o.annotated b).assign name text = (o.assign name text).map (annotated b') := by
  have other : ∀ {β : Type} (r : Except Fault β) {f g : β → Options}, (∀ x, g x = (f x).annotated b) →
      ∃ b', (r >>= fun x => pure (g x)) = (r >>= fun x => pure (f x)).map (annotated b') := by
    intro β r f g h
    refine ⟨b, ?_⟩
    cases r with
    | error e => rfl
    | ok x => exact congrArg Except.ok (h x)
  unfold assign
  simp only
  split
  case h_1 =>
    cases readValue "debug" .bool Number.readBool text with
    | error e => exact ⟨b, rfl⟩
    | ok v => exact ⟨v, rfl⟩
  case h_7 | h_14 | h_16 | h_17 => exact ⟨b, rfl⟩
  all_goals exact other _ fun _ => rfl

theorem set_annotated (o : Options) (b : Bool) (name value : String) :
    ∃ b', (o.annotated b).set name value = (o.set name value).map (annotated b') := by
  obtain ⟨b', h⟩ := o.assign_annotated b name (Text.trim value)
  refine ⟨b', ?_⟩
  unfold set
  rw [h]
  cases o.assign name (Text.trim value) with
  | error e => rfl
  | ok p =>
    have check : (p.annotated b').validate = p.validate := rfl
    change ((p.annotated b').validate >>= fun _ => pure (p.annotated b')) =
      (p.validate >>= fun _ => pure p).map (annotated b')
    rw [check]
    cases p.validate <;> rfl

end Options

/-- What may differ between two runs: whether annotations are requested, and in which order the values of a frame are
checked. -/
structure Variation where
  debug : Bool
  visit : Frame.Visit

/-- The context with annotations requested or not, and with another order of checks. -/
def Context.varied (w : Variation) (c : Context) : Context :=
  { c with options := c.options.annotated w.debug, chance := { c.chance with visit := w.visit } }

/-- How two runs are compared. -/
class Comparison where
  /-- Both runs check the values of a frame in the same order. -/
  sameOrder : Prop

section Comparison

variable [Comparison]

/-- The contexts are the same but for what may differ. -/
def Context.Similar (c d : Context) : Prop :=
  ∃ w, d = c.varied w ∧ (Comparison.sameOrder → w.visit = c.chance.visit)

end Comparison

/-- The error that reports the value of a variable as too long. -/
def DocError.tooLong (c : Context) (p : String × String) : DocError :=
  { kind := .limit (Context.byteSize p.2) c.options.varLimit, element := describe? c.current,
    attr := "variable $" ++ p.1 ++ " length" }

/-- The errors report two values of one frame, which both are too long. -/
def DocError.Rivals (e e' : DocError) : Prop := ∃ (c : Context) (vars : Frame), ∃ p ∈ vars, ∃ q ∈ vars,
  c.options.varLimit < Context.byteSize p.2 ∧ c.options.varLimit < Context.byteSize q.2 ∧
  e = .tooLong c p ∧ e' = .tooLong c q

/-- The failures are the same, or the order of checks is not and they report two values of one frame. -/
inductive Failure.Corresponds [Comparison] : Failure → Failure → Prop where
  | refl (e : Failure) : Corresponds e e
  | rivals {e e' : DocError} (h : ¬ Comparison.sameOrder) (hr : e.Rivals e') : Corresponds (.error e) (.error e')

namespace Context

variable (c : Context) (w : Variation)

theorem checkVar_eq_error {p : String × String} {e : Failure} (h : c.checkVar p.1 p.2 = .error e) :
    c.options.varLimit < byteSize p.2 ∧ e = .error (.tooLong c p) := by
  unfold checkVar at h
  split at h
  · next hlong =>
    cases h
    exact ⟨hlong, rfl⟩
  · cases h

/-- A frame is refused because of one of its values. -/
theorem forM_checkVar_eq_error {vars : Frame} {e : Failure} (h : vars.forM (fun p => c.checkVar p.1 p.2) = .error e) :
    ∃ p ∈ vars, c.options.varLimit < byteSize p.2 ∧ e = .error (.tooLong c p) := by
  induction vars with
  | nil => cases h
  | cons p vars ih =>
    cases hp : c.checkVar p.1 p.2 with
    | error f =>
      change (c.checkVar p.1 p.2 >>= fun _ => vars.forM _) = _ at h
      rw [hp] at h
      cases h
      exact ⟨p, List.mem_cons_self, c.checkVar_eq_error hp⟩
    | ok u =>
      change (c.checkVar p.1 p.2 >>= fun _ => vars.forM _) = _ at h
      rw [hp] at h
      obtain ⟨q, hq, hlong⟩ := ih h
      exact ⟨q, List.mem_cons_of_mem _ hq, hlong⟩

/-- A frame is opened in both runs, or refused in both. -/
theorem pushFrame_varied [Comparison] (hw : Comparison.sameOrder → w.visit = c.chance.visit) (vars : Frame) :
    (∃ d, c.pushFrame vars = .ok d ∧ (c.varied w).pushFrame vars = .ok (d.varied w) ∧ d.chance = c.chance) ∨
      ∃ e e', c.pushFrame vars = .error e ∧ (c.varied w).pushFrame vars = .error e' ∧ e.Corresponds e' := by
  have pushed : ∀ c : Context, c.pushFrame vars =
      ((c.chance.visit.order vars).forM fun p => c.checkVar p.1 p.2).map
        fun _ => { c with scope := c.scope.push vars } := by
    intro c
    unfold pushFrame
    cases (c.chance.visit.order vars).forM fun p => c.checkVar p.1 p.2 <;> rfl
  have checks : ∀ f : Frame, (f.forM fun p => (c.varied w).checkVar p.1 p.2) = f.forM fun p => c.checkVar p.1 p.2 :=
    fun _ => rfl
  have checked : ∀ {v v' : Frame.Visit} {e : Failure},
      (v.order vars).forM (fun p => c.checkVar p.1 p.2) = .error e →
      (v'.order vars).forM (fun p => c.checkVar p.1 p.2) ≠ .ok () := by
    intro v v' e he hok
    obtain ⟨p, hp, hlong, -⟩ := c.forM_checkVar_eq_error he
    have := forM_checkVar_eq_ok_iff.1 hok p ((v'.perm vars).mem_iff.2 ((v.perm vars).mem_iff.1 hp))
    omega
  have visit : (c.varied w).chance.visit = w.visit := rfl
  rw [pushed c, pushed (c.varied w), checks, visit]
  cases h : (c.chance.visit.order vars).forM fun p => c.checkVar p.1 p.2 with
  | ok u =>
    cases h' : (w.visit.order vars).forM fun p => c.checkVar p.1 p.2 with
    | ok u' => exact .inl ⟨_, rfl, rfl, rfl⟩
    | error e' => exact absurd h (checked h')
  | error e =>
    cases h' : (w.visit.order vars).forM fun p => c.checkVar p.1 p.2 with
    | ok u' => exact absurd h' (checked h)
    | error e' =>
      refine .inr ⟨e, e', rfl, rfl, ?_⟩
      by_cases hsame : Comparison.sameOrder
      · rw [hw hsame, h] at h'
        cases h'
        exact .refl e
      · obtain ⟨p, hp, hlong, rfl⟩ := c.forM_checkVar_eq_error h
        obtain ⟨q, hq, hlong', rfl⟩ := c.forM_checkVar_eq_error h'
        exact .rivals hsame ⟨c, vars, p, (c.chance.visit.perm vars).mem_iff.1 hp, q, (w.visit.perm vars).mem_iff.1 hq,
          hlong, hlong', rfl, rfl⟩

theorem setVar_varied (name value : String) :
    (c.varied w).setVar name value = (c.setVar name value).map (varied w) := by
  have check : (c.varied w).checkVar name value = c.checkVar name value := rfl
  unfold setVar
  rw [check]
  cases c.checkVar name value <;> rfl

theorem setOption_varied (name value : String) :
    ∃ b, (c.varied w).setOption name value = (c.setOption name value).map (varied { w with debug := b }) := by
  obtain ⟨b, h⟩ := c.options.set_annotated w.debug name value
  refine ⟨b, ?_⟩
  unfold setOption
  change ((c.options.annotated w.debug).set name value >>= _) = _
  rw [h]
  cases c.options.set name value <;> rfl

theorem enter_varied (el : Option Element) : (c.varied w).enter el = (c.enter el).map (varied w) := by
  unfold enter
  simp only
  split
  · next h => rw [if_pos (show c.options.depthLimit < (c.depth + 1 : Nat) from h)]; rfl
  · next h => rw [if_neg (show ¬ c.options.depthLimit < (c.depth + 1 : Nat) from h)]; rfl

theorem markSeen_varied (id : String) :
    (c.varied w).markSeen id = (c.markSeen id).varied w := by
  unfold Context.markSeen
  split <;> rfl

theorem registerWritten_varied (id : String) (n : Node) :
    (c.varied w).registerWritten id n = (c.registerWritten id n).varied w := by
  have hwritten : (c.varied w).written = c.written := rfl
  unfold registerWritten
  rw [hwritten]
  cases c.written.lookup id <;> rfl

end Context

/-! ## Two runs -/

section Runs

variable [Comparison] {α β γ : Type}

omit [Comparison] in
/-- Outcomes that look alike are the same failure, or results that look alike. -/
theorem except_map_eq_map {ε : Type} {g : α → β} {r r' : Except ε α} (h : r.map g = r'.map g) :
    (∃ e, r = .error e ∧ r' = .error e) ∨ ∃ a a', r = .ok a ∧ r' = .ok a' ∧ g a = g a' := by
  cases r with
  | error e =>
    cases r' with
    | error e' => exact .inl ⟨e, rfl, congrArg Except.error (Except.error.inj h).symm⟩
    | ok a' => cases h
  | ok a =>
    cases r' with
    | error e' => cases h
    | ok a' => exact .inr ⟨a, a', rfl, rfl, Except.ok.inj h⟩

/-- Both outcomes are results in the relation, or they are failures that are alike, and the contexts are similar. -/
inductive Tally (R : α → α → Prop) : Except Failure α × Context → Except Failure α × Context → Prop where
  | ok {a b : α} {c d : Context} (h : R a b) (hc : c.Similar d) : Tally R (.ok a, c) (.ok b, d)
  | error {e e' : Failure} {c d : Context} (h : e.Corresponds e') (hc : c.Similar d) : Tally R (.error e, c) (.error e', d)

/-- From similar contexts the steps have results in the relation, or fail alike. -/
def Parallel (R : α → α → Prop) (m m' : Compile α) : Prop :=
  ∀ c d : Context, c.Similar d → Tally R (exec m c) (exec m' d)

/-- The values look alike. -/
abbrev By (g : α → β) : α → α → Prop := fun a b => g a = g b

/-- The step does not look at what may differ between the runs. -/
abbrev Heedless (m : Compile α) : Prop := Parallel Eq m m

/-- What `g` shows of the result does not depend on what may differ between the runs. -/
abbrev HeedlessUpTo (g : α → β) (m : Compile α) : Prop := Parallel (By g) m m

namespace Parallel

variable {R S : α → α → Prop} {m m' : Compile α}

theorem mono (h : Parallel R m m') (hs : ∀ a b, R a b → S a b) : Parallel S m m' := by
  intro c d hc
  have := h c d hc
  generalize exec m c = r at this
  generalize exec m' d = r' at this
  cases this with
  | ok hr hc => exact .ok (hs _ _ hr) hc
  | error he hc => exact .error he hc

theorem upTo (h : Heedless m) (g : α → β) : HeedlessUpTo g m := h.mono fun _ _ h => congrArg g h

theorem pure {a b : α} (h : R a b) : Parallel R (pure a) (pure b) := fun _ _ hc => .ok h hc

theorem throw (e : Failure) : Parallel R (throw e) (throw e) := fun _ _ hc => .error (.refl e) hc

theorem bind {R : α → α → Prop} {S : β → β → Prop} {f f' : α → Compile β} (hm : Parallel R m m')
    (hf : ∀ a b, R a b → Parallel S (f a) (f' b)) : Parallel S (m >>= f) (m' >>= f') := by
  intro c d hc
  have := hm c d hc
  rw [exec_bind, exec_bind]
  generalize exec m c = r at this
  generalize exec m' d = r' at this
  cases this with
  | ok hr hc => exact hf _ _ hr _ _ hc
  | error he hc => exact .error he hc

/-- What goes before gives the same in both runs. -/
theorem after {S : β → β → Prop} {f f' : α → Compile β} (hm : Heedless m) (hf : ∀ a, Parallel S (f a) (f' a)) :
    Parallel S (m >>= f) (m >>= f') :=
  hm.bind fun a _ h => h ▸ hf a

/-- What is read of the context differs in nothing else. -/
theorem get {S : β → β → Prop} {f f' : Context → Compile β}
    (h : ∀ c w, (Comparison.sameOrder → w.visit = c.chance.visit) → Parallel S (f c) (f' (c.varied w))) :
    Parallel S (get >>= f) (get >>= f') := by
  rintro c _ ⟨w, rfl, hw⟩
  exact h c w hw _ _ ⟨w, rfl, hw⟩

theorem modify {f : Context → Context} (h : ∀ c w, f (c.varied w) = (f c).varied w ∧ (f c).chance = c.chance) :
    Heedless (modify f : Compile Unit) := by
  rintro c _ ⟨w, rfl, hw⟩
  obtain ⟨hf, hc⟩ := h c w
  exact .ok rfl ⟨w, hf, hc ▸ hw⟩

theorem set {c d : Context} (h : c.Similar d) : Parallel Eq (set c : Compile PUnit) (set d) := fun _ _ _ => .ok rfl h

theorem ofExcept (r : Except Failure α) : Heedless (ofExcept r : Compile α) := by
  intro c d hc
  rw [exec_ofExcept, exec_ofExcept]
  cases r with
  | ok a => exact .ok rfl hc
  | error e => exact .error (.refl e) hc

/-- Outcomes of readings that look alike. -/
theorem readings {g : α → β} {r r' : Except Failure α} (h : r.map g = r'.map g) :
    Parallel (By g) (MonadExcept.ofExcept r : Compile α) (MonadExcept.ofExcept r') := by
  intro c d hc
  rw [exec_ofExcept, exec_ofExcept]
  obtain ⟨e, rfl, rfl⟩ | ⟨a, a', rfl, rfl, ha⟩ := except_map_eq_map h
  · exact .error (.refl e) hc
  · exact .ok ha hc

theorem update {f : Context → Except Failure Context}
    (h : ∀ c w, (Comparison.sameOrder → w.visit = c.chance.visit) →
      (∃ d, f c = .ok d ∧ f (c.varied w) = .ok (d.varied w) ∧ d.chance = c.chance) ∨
        ∃ e e', f c = .error e ∧ f (c.varied w) = .error e' ∧ e.Corresponds e') : Heedless (update f) := by
  rintro c _ ⟨w, rfl, hw⟩
  rw [exec_update, exec_update]
  obtain ⟨d, hc, hd, hchance⟩ | ⟨e, e', hc, hd, he⟩ := h c w hw
  · rw [hc, hd]
    exact .ok rfl ⟨w, rfl, hchance ▸ hw⟩
  · rw [hc, hd]
    exact .error he ⟨w, rfl, hw⟩

/-- A change that does not look at what may differ. -/
theorem update_same {f : Context → Except Failure Context}
    (h : ∀ c w, f (c.varied w) = (f c).map (Context.varied w)) (hf : ∀ c d, f c = .ok d → d.chance = c.chance) :
    Heedless (Compile.update f) := by
  refine update fun c w _ => ?_
  rw [h c w]
  cases hc : f c with
  | ok d => exact .inl ⟨d, rfl, rfl, hf c d hc⟩
  | error e => exact .inr ⟨e, e, rfl, rfl, .refl e⟩

theorem bracket (hm : Parallel R m m') {g : Context → Context}
    (hg : ∀ c w, g (c.varied w) = (g c).varied w ∧ (g c).chance = c.chance) :
    Parallel R (bracket m g) (bracket m' g) := by
  have cleaned : ∀ {c d : Context}, c.Similar d → (g c).Similar (g d) := by
    rintro c _ ⟨w, rfl, hw⟩
    obtain ⟨hd, hc⟩ := hg c w
    exact ⟨w, hd, hc ▸ hw⟩
  intro c d hc
  have := hm c d hc
  rw [exec_bracket, exec_bracket]
  generalize exec m c = r at this
  generalize exec m' d = r' at this
  cases this with
  | ok hr hc => exact .ok hr (cleaned hc)
  | error he hc => exact .error he (cleaned hc)

theorem attempt {g : α → β} (hm : Parallel (By g) m m') :
    Parallel (By fun r => r.map g) (attempt m) (attempt m') := by
  intro c d hc
  have := hm c d hc
  rw [exec_attempt, exec_attempt]
  generalize exec m c = r at this
  generalize exec m' d = r' at this
  cases this with
  | ok hr hc => exact .ok (congrArg Except.ok hr) hc
  | @error e e' _ _ he hc =>
    cases he with
    | refl =>
      cases e with
      | deferred d => exact .ok rfl hc
      | error e => exact .error (.refl _) hc
      | exhausted => exact .error (.refl _) hc
    | rivals h hr => exact .error (.rivals h hr) hc

theorem ite {p : Prop} [Decidable p] {n n' : Compile α} (h : p → Parallel R m m') (h' : ¬ p → Parallel R n n') :
    Parallel R (if p then m else n) (if p then m' else n') := by
  split
  · next hp => exact h hp
  · next hp => exact h' hp

/-- Results of both runs have what every result of the steps has. -/
theorem ensured {Q : α → Prop} (hm : Parallel R m m') (hq : Yields m Q) (hq' : Yields m' Q) :
    Parallel (fun a b => R a b ∧ Q a ∧ Q b) m m' := by
  intro c d hc
  have ht := hm c d hc
  have h := (hq c trivial).2
  have h' := (hq' d trivial).2
  generalize exec m c = r at ht h
  generalize exec m' d = r' at ht h'
  cases ht with
  | ok hr hc => exact .ok ⟨hr, h _ rfl, h' _ rfl⟩ hc
  | error he hc => exact .error he hc

theorem mapM {g : β → γ} {f f' : α → Compile β} (h : ∀ a, Parallel (By g) (f a) (f' a)) (as : List α) :
    Parallel (By (List.map g)) (as.mapM f) (as.mapM f') := by
  induction as with
  | nil => exact .pure rfl
  | cons a as ih =>
    rw [List.mapM_cons, List.mapM_cons]
    refine (h a).bind fun b b' hb => ih.bind fun bs bs' hbs => .pure ?_
    change g b :: bs.map g = g b' :: bs'.map g
    rw [hb, hbs]

theorem mapM_same {f : α → Compile β} (h : ∀ a, Heedless (f a)) (as : List α) : Heedless (as.mapM f) := by
  induction as with
  | nil => exact .pure rfl
  | cons a as ih =>
    rw [List.mapM_cons]
    exact (h a).after fun _ => ih.after fun _ => .pure rfl

theorem forM {f : α → Compile PUnit} (h : ∀ a, Heedless (f a)) (as : List α) : Heedless (as.forM f) := by
  induction as with
  | nil => exact .pure rfl
  | cons a as ih => exact (h a).after fun _ => ih

theorem foldlM {f : β → α → Compile β} (h : ∀ b a, Heedless (f b a)) (as : List α) (b : β) :
    Heedless (as.foldlM f b) := by
  induction as generalizing b with
  | nil => exact .pure rfl
  | cons a as ih =>
    rw [List.foldlM_cons]
    exact (h b a).after fun b => ih b

theorem withFrame (vars : Frame) (hm : Parallel R m m') : Parallel R (withFrame vars m) (withFrame vars m') :=
  after (update fun c w hw => c.pushFrame_varied w hw vars) fun _ => hm.bracket fun _ _ => ⟨rfl, rfl⟩

theorem withDepth (el : Element) (hm : Parallel R m m') : Parallel R (withDepth el m) (withDepth el m') :=
  after (update_same (fun c w => c.enter_varied w el) fun _ _ h => by rw [Context.enter_eq_ok h])
    fun _ => hm.bracket fun _ _ => ⟨rfl, rfl⟩

theorem withCurrent (el : Element) (hm : Parallel R m m') : Parallel R (withCurrent el m) (withCurrent el m') :=
  get fun _ _ _ => after (modify fun _ _ => ⟨rfl, rfl⟩) fun _ => hm.bracket fun _ _ => ⟨rfl, rfl⟩

end Parallel

end Runs

/-! ## Steps -/

section Documents

variable [Comparison]

namespace Compile

variable {β : Type}

theorem heedless_setCurrent (el : Element) : Heedless (setCurrent el) := .modify fun _ _ => ⟨rfl, rfl⟩

theorem heedless_observe (el : Element) : Heedless (observe el) := .modify fun _ _ => ⟨rfl, rfl⟩

theorem heedless_register (el : Element) (box : Option (Box Float)) : Heedless (register el box) :=
  .modify fun _ _ => ⟨rfl, rfl⟩

theorem heedless_evaluating (el : Option Element) (attr : String) {f : Context → Except Expr.Error β × Context}
    (hf : ∀ c w, f (c.varied w) = ((f c).1, (f c).2.varied w) ∧ (f c).2.chance = c.chance) :
    Heedless (evaluating el attr f) := by
  rintro c _ ⟨w, rfl, hw⟩
  obtain ⟨hd, hc⟩ := hf c w
  have similar : (f c).2.Similar ((f c).2.varied w) := ⟨w, rfl, hc ▸ hw⟩
  rw [exec_evaluating, exec_evaluating, hd]
  generalize f c = r at similar
  rcases r with ⟨e | a, d⟩
  · exact .error (.refl _) similar
  · exact .ok rfl similar

theorem heedless_expand (el : Element) (attr s : String) : Heedless (expand el attr s) :=
  heedless_evaluating _ _ fun _ _ => ⟨rfl, rfl⟩

theorem heedless_eval (el : Element) (attr s : String) : Heedless (eval el attr s) :=
  heedless_evaluating _ _ fun _ _ => ⟨rfl, rfl⟩

theorem heedless_condition (el : Element) (attr s : String) : Heedless (condition el attr s) :=
  .after (heedless_eval _ _ _) fun _ => .pure rfl

theorem heedless_expandElement (el : Element) : Heedless (expandElement el) := by
  unfold expandElement
  refine .after (.foldlM (fun fl p => .after (heedless_expand _ _ _) fun _ => .pure rfl) _ _) fun fl => ?_
  exact .after (.mapM_same (fun c => .after (heedless_expand _ _ _) fun _ => .pure rfl) _) fun _ => .pure rfl

theorem heedless_prepare (el : Element) (order : Order) : Heedless (prepare el order) := by
  unfold prepare
  refine .after (heedless_setCurrent _) fun _ => .after (heedless_expandElement _) fun fl => .get fun c w _ => ?_
  refine .after (.modify fun d w => ⟨?_, ?_⟩) fun _ => .pure rfl
  · rw [d.markSeen_varied w]
    rfl
  · exact d.chance_markSeen _

end Compile

/-! ## Siblings -/

/-- The sibling with the skeleton of its drawing, if there is one. -/
def Sibling.core : Sibling → Sibling
  | .drawn c => .drawn c.core
  | .waiting p => .waiting p

namespace Siblings

omit [Comparison] in
theorem core_ofAttempt {order : Order} {wait : Deferral → Pending} {r r' : Except Deferral Drawing}
    (h : r.map Drawing.core = r'.map Drawing.core) :
    (Sibling.ofAttempt order wait r).core = (Sibling.ofAttempt order wait r').core := by
  have core : ∀ r, (Sibling.ofAttempt order wait r).core = .ofAttempt order wait (r.map Drawing.core) := by
    rintro (why | d) <;> rfl
  rw [core, core, h]

omit [Comparison] in
theorem chunks_congr {ss ss' : List Sibling} (h : ss.map Sibling.core = ss'.map Sibling.core) :
    (ss.filterMap Sibling.chunk?).map Chunk.core = (ss'.filterMap Sibling.chunk?).map Chunk.core := by
  have chunks : ∀ ss : List Sibling,
      (ss.filterMap Sibling.chunk?).map Chunk.core = (ss.map Sibling.core).filterMap Sibling.chunk? := by
    intro ss
    rw [List.filterMap_map, List.map_filterMap]
    refine List.filterMap_congr fun s _ => ?_
    cases s <;> rfl
  rw [chunks ss, chunks ss', h]

omit [Comparison] in
theorem pendings_congr {ss ss' : List Sibling} (h : ss.map Sibling.core = ss'.map Sibling.core) :
    ss.filterMap Sibling.pending? = ss'.filterMap Sibling.pending? := by
  have pendings : ∀ ss : List Sibling,
      ss.filterMap Sibling.pending? = (ss.map Sibling.core).filterMap Sibling.pending? := by
    intro ss
    rw [List.filterMap_map]
    refine List.filterMap_congr fun s _ => ?_
    cases s <;> rfl
  rw [pendings ss, pendings ss', h]

/-- All passes over the nodes: the chunks that are drawn, and the nodes that still wait. -/
def run (step : Step) (nodes : List Node) (base : Order) : Compile (List Chunk × List Pending) := do
  let tried ← nodes.zipIdx.mapM fun p => first step p.1 (base.sub p.2)
  passes step (tried.filterMap Sibling.pending?).length (tried.filterMap Sibling.chunk?)
    (tried.filterMap Sibling.pending?)

omit [Comparison] in
theorem draw_eq (step : Step) (nodes : List Node) (base : Order) :
    draw step nodes base = run step nodes base >>= fun r => pure (assemble r.1, r.2.map Pending.why) := by
  unfold run
  rw [bind_assoc]
  rfl

variable {step : Step} (h : ∀ n order, HeedlessUpTo Drawing.core (step n order))

include h

theorem heedless_first (n : Node) (order : Order) : HeedlessUpTo Sibling.core (first step n order) := by
  unfold first
  refine .get fun c w _ => (h n order).attempt.bind fun r r' hr => ?_
  refine .after (.modify fun d w => ?_) fun _ => .pure (core_ofAttempt hr)
  unfold aim
  split
  · exact ⟨rfl, rfl⟩
  · exact ⟨rfl, rfl⟩

theorem heedless_retry (p : Pending) : HeedlessUpTo Sibling.core (retry step p) := by
  unfold retry
  refine .get fun live w _ => .after (.modify fun _ _ => ⟨rfl, rfl⟩) fun _ => ?_
  refine Parallel.bind (Parallel.bracket (h p.node p.order).attempt ?_) fun r r' hr => .pure (core_ofAttempt hr)
  exact fun _ _ => ⟨rfl, rfl⟩

theorem parallel_passes (n : Nat) : ∀ {chunks chunks' : List Chunk} (queue : List Pending),
    chunks.map Chunk.core = chunks'.map Chunk.core →
    Parallel (By fun r : List Chunk × List Pending => (r.1.map Chunk.core, r.2)) (passes step n chunks queue)
      (passes step n chunks' queue) := by
  have done : ∀ {chunks chunks' : List Chunk} (queue : List Pending), chunks.map Chunk.core = chunks'.map Chunk.core →
      Parallel (By fun r : List Chunk × List Pending => (r.1.map Chunk.core, r.2)) (pure (chunks, queue))
        (pure (chunks', queue)) := fun queue hc => .pure (Prod.ext hc rfl)
  induction n with
  | zero => exact fun queue hc => done queue hc
  | succ n ih =>
    intro chunks chunks' queue hc
    unfold passes
    refine .ite (fun _ => done queue hc) fun _ => ?_
    refine (Parallel.mapM (heedless_retry h) queue).bind fun tried tried' ht => ?_
    have hchunks : (chunks ++ tried.filterMap Sibling.chunk?).map Chunk.core =
        (chunks' ++ tried'.filterMap Sibling.chunk?).map Chunk.core := by
      rw [List.map_append, List.map_append, hc, chunks_congr ht]
    simp only [pendings_congr ht]
    exact .ite (fun _ => done _ hchunks) fun _ => ih _ hchunks

theorem heedless_run (nodes : List Node) (base : Order) :
    HeedlessUpTo (fun r : List Chunk × List Pending => (r.1.map Chunk.core, r.2)) (run step nodes base) := by
  have hfirst : ∀ p : Node × Nat, HeedlessUpTo Sibling.core (first step p.1 (base.sub p.2)) :=
    fun p => heedless_first h p.1 _
  unfold run
  refine (Parallel.mapM hfirst nodes.zipIdx).bind fun tried tried' ht => ?_
  rw [pendings_congr ht]
  exact parallel_passes h _ _ (chunks_congr ht)

omit h [Comparison] in
theorem yields_run (hs : StepSound (fun _ => True) step) (nodes : List Node) (base : Order) :
    Yields (run step nodes base) fun r => ∀ c ∈ r.1, c.drawing.Sound fun _ => True := by
  have fits : ∀ n : Node, n.Fits (Named fun _ => True) := fun n e _ el _ _ _ => trivial
  have sound : Ensures (Context.Sound fun _ => True) (run step nodes base)
      fun r => ∀ c ∈ r.1, c.drawing.Sound fun _ => True :=
    .bind (.mapM fun p _ => ensures_first hs (fits p.1) _) fun tried ht =>
      ensures_passes hs _ (sound_chunks ht) (sound_pendings ht)
  intro c _
  have hc : c.Sound fun _ => True := ⟨fun p _ => fits p.2, fun p _ => fits p.2, fun _ _ _ _ => trivial⟩
  exact ⟨trivial, (sound c hc).2⟩

/-- Siblings are drawn alike if each of them is. -/
theorem heedless_draw (hs : StepSound (fun _ => True) step) (nodes : List Node) (base : Order) :
    HeedlessUpTo (fun r : Drawing × List Deferral => (r.1.core, r.2)) (draw step nodes base) := by
  have sound := yields_run hs nodes base
  rw [draw_eq]
  refine ((heedless_run h nodes base).ensured sound sound).bind fun r r' hr => .pure ?_
  obtain ⟨hcore, hr, hr'⟩ := hr
  obtain ⟨hchunks, hqueue⟩ := Prod.mk.inj hcore
  refine Prod.ext ?_ (congrArg (List.map Pending.why) hqueue)
  change (assemble r.1).core = (assemble r'.1).core
  rw [core_assemble hr, core_assemble hr', hchunks]

end Siblings

/-- The content of an element is drawn alike in both runs. -/
def Inside.Steady (inside : Inside) : Prop := ∀ nodes order,
  HeedlessUpTo (fun r : Drawing × List Deferral => (r.1.core, r.2)) (inside nodes order)

theorem Inside.Steady.of {inside : Inside} (h : inside.Steady) (el : Element) (nodes : List Node) (order : Order) :
    HeedlessUpTo Drawing.core (inside.of el nodes order) := by
  unfold Inside.of
  refine (h nodes order).bind fun r r' hr => ?_
  obtain ⟨d, stalled⟩ := r
  obtain ⟨e, stalled'⟩ := r'
  obtain ⟨hd, hs⟩ := Prod.mk.inj hr
  obtain rfl : stalled = stalled' := hs
  exact .ite (fun _ => .pure hd) fun _ => .throw _

/-! ## Control elements -/

namespace Control

theorem heedless_loopCount (el : Element) : Heedless (loopCount el) := by
  unfold loopCount
  cases el.get? "count" with
  | none => exact .pure rfl
  | some v =>
    refine .after (heedless_eval _ _ _) fun x => ?_
    cases x.number? with
    | none => exact .throw _
    | some x => exact .ite (fun _ => .throw _) fun _ => .get fun c w hw => .after (.ofExcept _) fun _ => .pure rfl

theorem heedless_loopNumber (el : Element) (attr : String) (default : Float) :
    Heedless (loopNumber el attr default) := by
  unfold loopNumber
  cases el.get? attr with
  | none => exact .pure rfl
  | some s => exact .ofExcept _

theorem heedless_testHolds (el : Element) (attr : String) (default : Bool) (test : Option String) :
    Heedless (testHolds el attr default test) := by
  cases test with
  | none => exact .pure rfl
  | some t => exact heedless_condition _ _ _

theorem heedless_checkForm (el : Element) (while? until? : Option String) : Heedless (checkForm el while? until?) :=
  .ite (fun _ => .pure rfl) fun _ => .throw _

theorem heedless_items (el : Element) (data : String) : Heedless (items el data) := by
  unfold items
  refine .ite (fun _ => .pure rfl) fun _ => .get fun c w hw => ?_
  have heval : (c.varied w).eval data = ((c.eval data).1, (c.eval data).2.varied w) := rfl
  have similar : (c.eval data).2.Similar ((c.eval data).2.varied w) := ⟨w, rfl, hw⟩
  rw [heval]
  generalize c.eval data = r at similar
  obtain ⟨r, d⟩ := r
  refine (Parallel.set similar).bind fun _ _ _ => ?_
  cases r with
  | ok v => exact .pure rfl
  | error e =>
    dsimp only
    split
    · exact .pure rfl
    · exact .pure rfl
    · exact .throw _

/-- The turn with the skeleton of its drawing. -/
def Turn.core : Turn → Turn
  | .over => .over
  | .drawn d last => .drawn d.core last

theorem parallel_turns {turn : Nat → Compile Turn} (count : Option Nat)
    (h : ∀ k, HeedlessUpTo Turn.core (turn k)) : ∀ (fuel k : Nat) {acc acc' : List Drawing},
    acc.map Drawing.core = acc'.map Drawing.core →
      Parallel (By (List.map Drawing.core)) (turns turn count fuel k acc) (turns turn count fuel k acc') := by
  have done : ∀ {acc acc' : List Drawing}, acc.map Drawing.core = acc'.map Drawing.core →
      Parallel (By (List.map Drawing.core)) (pure acc.reverse) (pure acc'.reverse) := by
    intro acc acc' hacc
    refine .pure ?_
    change acc.reverse.map _ = acc'.reverse.map _
    rw [List.map_reverse, List.map_reverse, hacc]
  intro fuel
  induction fuel with
  | zero => exact fun k acc acc' hacc => .ite (fun _ => done hacc) fun _ => .throw _
  | succ fuel ih =>
    intro k acc acc' hacc
    unfold turns
    refine .ite (fun _ => done hacc) fun _ => (h k).bind fun t t' ht => ?_
    cases t with
    | «over» =>
      cases t' with
      | «over» => exact done hacc
      | drawn d last => cases ht
    | drawn d last =>
      cases t' with
      | «over» => cases ht
      | drawn e last' =>
        obtain ⟨hd, rfl⟩ := Turn.drawn.inj ht
        have hcons : (d :: acc).map Drawing.core = (e :: acc').map Drawing.core := by
          rw [List.map_cons, List.map_cons, hd, hacc]
        cases last with
        | true => exact done hcons
        | false => exact ih _ hcons

omit [Comparison] in
theorem core_concat_congr {ds es : List Drawing} (h : ds.map Drawing.core = es.map Drawing.core) :
    (Drawing.concat ds).core = (Drawing.concat es).core := by
  rw [Drawing.core_concat, Drawing.core_concat, h]

variable {inside : Inside} (hi : inside.Steady)

include hi

theorem heedless_body (el : Element) (children : List Node) (order : Order) (vars : Frame) :
    HeedlessUpTo Drawing.core (body inside el children order vars) :=
  .withFrame vars (hi.of el children order)

theorem heedless_loopTurn (el : Element) (children : List Node) (while? until? : Option String) (start step : Float)
    (k : Nat) : HeedlessUpTo Turn.core (loopTurn inside el children while? until? start step k) := by
  unfold loopTurn
  refine .after (heedless_testHolds _ _ _ _) fun holds => ?_
  refine .ite (fun _ => .get fun c w hw => .after (.ofExcept _) fun _ => ?_) fun _ => .pure rfl
  refine (heedless_body hi el children _ _).bind fun d e hd => .after (heedless_testHolds _ _ _ _) fun last => .pure ?_
  exact congrArg (Turn.drawn · last) hd

theorem heedless_loop (bound : Nat) (el : Element) (children : List Node) (order : Order) :
    HeedlessUpTo Drawing.core (loop bound inside el children order) := by
  unfold loop
  refine .after (heedless_setCurrent _) fun _ => .after (heedless_expandElement _) fun el => ?_
  refine .after (heedless_setCurrent _) fun _ => .after (heedless_loopCount _) fun count => ?_
  refine .after (heedless_checkForm _ _ _) fun _ => .after (heedless_loopNumber _ _ _) fun start => ?_
  refine .after (heedless_loopNumber _ _ _) fun step => ?_
  exact (parallel_turns _ (heedless_loopTurn hi el children _ _ _ _) _ _ rfl).bind fun ds es h =>
    .pure (core_concat_congr h)

theorem heedless_each (el : Element) (children : List Node) (order : Order) :
    HeedlessUpTo Drawing.core (each inside el children order) := by
  unfold each
  refine .after (heedless_setCurrent _) fun _ => .after (heedless_expandElement _) fun el => ?_
  refine .after (heedless_setCurrent _) fun _ => ?_
  cases el.get? "data" with
  | none => exact .throw _
  | some data =>
    refine .after (heedless_items _ _) fun xs => .get fun c w hw => .after (.ofExcept _) fun _ => ?_
    exact (Parallel.mapM (fun p => heedless_body hi el children _ _) _).bind fun ds es h => .pure (core_concat_congr h)

theorem heedless_branch (el : Element) (children : List Node) (order : Order) :
    HeedlessUpTo Drawing.core (branch inside el children order) := by
  unfold branch
  refine .after (heedless_setCurrent _) fun _ => ?_
  cases el.get? "test" with
  | none => exact .throw _
  | some test =>
    refine .after (heedless_expandElement _) fun el => .after (heedless_setCurrent _) fun _ => ?_
    refine .after (heedless_condition _ _ _) fun holds => ?_
    exact .ite (fun _ => heedless_body hi el children _ _) fun _ => .pure rfl

omit hi

theorem heedless_assign (el : Element) (order : Order) : Heedless (assign el order) := by
  unfold assign
  refine .after (heedless_setCurrent _) fun _ => .after (.forM (fun p => ?_) _) fun _ => .pure rfl
  exact .after (heedless_expand _ _ _) fun v => .update_same (fun c w => c.setVar_varied w p.1 v)
    fun _ _ h => by rw [Context.setVar_eq_ok h]

theorem heedless_config (el : Element) (order : Order) : Heedless (config el order) := by
  unfold config
  refine .after (heedless_prepare _ _) fun el => .after (.forM (fun p => .get fun c w hw => ?_) _) fun _ => .pure rfl
  obtain ⟨b, h⟩ := c.setOption_varied w p.1 p.2
  rw [h]
  cases hd : c.setOption p.1 p.2 with
  | error e => exact .throw _
  | ok d =>
    obtain ⟨o, dice, rfl⟩ := Context.setOption_eq_ok hd
    exact .set ⟨{ w with debug := b }, rfl, hw⟩

theorem heedless_defaults (children : List Node) (order : Order) : Heedless (defaults children order) := by
  unfold defaults
  refine .after (.forM (fun p => ?_) _) fun _ => .pure rfl
  obtain ⟨n, i⟩ := p
  cases n with
  | leaf l => exact .pure rfl
  | element d cs =>
    refine .after (heedless_setCurrent _) fun _ => .after (heedless_expandElement _) fun d => ?_
    exact .modify fun _ _ => ⟨rfl, rfl⟩

theorem heedless_templates (children : List Node) : Heedless (templates children) := by
  unfold templates
  simp only
  split
  · exact .throw _
  refine .after (.forM (fun n => ?_) _) fun _ => .pure rfl
  unfold addTemplate
  cases n.element? with
  | none => exact .pure rfl
  | some el =>
    refine .ite (fun _ => .throw _) fun _ => .modify fun c w => ?_
    exact ⟨(c.addTemplate el.id n).markSeen_varied w el.id, (c.addTemplate el.id n).chance_markSeen el.id⟩

end Control

/-! ## Figures -/

namespace Figure

/-- The shape with the skeleton of its content. -/
def Settled.core (s : Settled) : Settled := { s with content := Event.skeleton s.content }

omit [Comparison] in
/-- Shapes are measured alike: only the lines of their content count. -/
theorem measured_core (o : Options) (b : Bool) (el : Element) (label : Option Label) {inner inner' : List Event}
    (h : Event.skeleton inner = Event.skeleton inner') :
    (measured o el label inner).map Settled.core = (measured (o.annotated b) el label inner').map Settled.core := by
  have lines : Label.linesOf inner = Label.linesOf inner' := by
    rw [← Label.linesOf_skeleton inner, h, Label.linesOf_skeleton inner']
  unfold measured
  split
  · have hbox : Label.box? (o.annotated b) el = Label.box? o el := rfl
    dsimp only
    rw [lines, hbox]
    cases checked el "" (Label.box? o el ((label.map Label.lines).getD [] ++ Label.linesOf inner')) with
    | error e => rfl
    | ok box =>
      refine congrArg Except.ok ?_
      simp only [Settled.core, Event.skeleton_append, h]
  · cases checked el "" (el.box? : Except Fault (Option (Box Float))) with
    | error e => rfl
    | ok box =>
      change (rotated el box >>= _).map _ = (rotated el box >>= _).map _
      cases rotated el box with
      | error e => rfl
      | ok fl =>
        refine congrArg Except.ok ?_
        simp only [Settled.core, h]

variable {inside : Inside} (hi : inside.Steady)

include hi

theorem heedless_shape {note : Element → Compile Unit} (hnote : ∀ el, Heedless (note el)) (el : Element)
    (children : List Node) : HeedlessUpTo Drawing.core (shape note inside el children) := by
  unfold shape
  refine .get fun c w hw => .after (.ofExcept _) fun el => .after (hnote _) fun _ => ?_
  refine .get fun c w hw => .after (.ofExcept _) fun el => .after (hnote _) fun _ => ?_
  refine .get fun c w hw => .after (.ofExcept _) fun el => .after (.ofExcept _) fun r => ?_
  obtain ⟨label, el⟩ := r
  refine .after (hnote _) fun _ => (hi.of el children _).bind fun inner inner' hinner => .get fun c w hw => ?_
  have hskeleton : Event.skeleton inner.events = Event.skeleton inner'.events := congrArg Drawing.events hinner
  refine (Parallel.readings (measured_core c.options w.debug el label hskeleton)).bind fun s s' hs => ?_
  obtain ⟨fl, content, beside, box, parts⟩ := s
  obtain ⟨fl', content', beside', box', parts'⟩ := s'
  obtain ⟨rfl, hcontent, rfl, rfl, rfl⟩ := Settled.mk.inj hs
  refine .after (.forM heedless_observe _) fun _ => .after (heedless_register _ _) fun _ => ?_
  refine .after (heedless_observe _) fun _ => .pure ?_
  have hcontent : Event.skeleton content = Event.skeleton content' := hcontent
  simp only [By, Drawing.core, Event.skeleton_append, Event.skeleton_wrap, hcontent]

theorem heedless_textBox (el : Element) (children : List Node) :
    HeedlessUpTo Drawing.core (textBox inside el children) := by
  unfold textBox
  refine .get fun c w hw => .after (heedless_setCurrent _) fun _ => ?_
  exact heedless_shape hi heedless_setCurrent _ []

omit hi

theorem heedless_boxOf (el : Element) (w h : Float) : Heedless (boxOf el w h) := by
  unfold boxOf
  simp only
  refine .get fun c w hw => .after (.ofExcept _) fun rect => .after (.ofExcept _) fun box => ?_
  cases box with
  | none => exact .throw _
  | some box => exact .pure rfl

theorem heedless_person (el : Element) : Heedless (person el) := by
  unfold person
  refine .after (heedless_boxOf _ _ _) fun b => .after (.forM heedless_observe _) fun _ => ?_
  refine .after (.ofExcept _) fun g => .after (heedless_register _ _) fun _ => ?_
  exact .after (heedless_observe _) fun _ => .pure rfl

theorem heedless_pipeline (hi : inside.Steady) (el : Element) (children : List Node) :
    HeedlessUpTo Drawing.core (pipeline inside el children) := by
  unfold pipeline
  exact .after (heedless_boxOf _ _ _) fun b => heedless_shape hi (fun _ => .pure rfl) _ children

end Figure

namespace Gradient

theorem heedless_shaped (el : Element) (dir length : Option String) : Heedless (shaped el dir length) := by
  have coverage : Heedless (coverage el length) := by
    cases length with
    | none => exact .pure rfl
    | some v =>
      unfold Gradient.coverage
      simp only [map_eq_pure_bind]
      exact .after (.ofExcept _) fun _ => .pure rfl
  have degrees : Heedless (degreesOf el dir) := by
    cases dir with
    | none => exact .pure rfl
    | some d => exact .ofExcept (numberIn el "dir" d)
  unfold shaped
  refine .after coverage fun covered => ?_
  split
  · exact .after degrees fun _ => .pure rfl
  split
  · exact .pure rfl
  · exact .pure rfl

theorem heedless_draw {inside : Inside} (hi : inside.Steady) (el : Element) (children : List Node) :
    HeedlessUpTo Drawing.core (draw inside el children) := by
  unfold draw
  refine .after (heedless_shaped _ _ _) fun el => .after (heedless_setCurrent _) fun _ => ?_
  refine .after (.forM (fun s => heedless_observe _) _) fun _ => (hi.of el children _).bind fun inner inner' h => ?_
  refine .after (heedless_register _ _) fun _ => .after (heedless_observe _) fun _ => .pure ?_
  have hskeleton : Event.skeleton inner.events = Event.skeleton inner'.events := congrArg Drawing.events h
  simp only [By, Drawing.core, Event.skeleton_append, Event.skeleton_wrap, hskeleton]

end Gradient

/-! ## Instances -/

/-- The drawings are one element around contents with the same skeleton. -/
def Drawing.SameFrame (d e : Drawing) : Prop := ∃ el content content' box,
  d = ⟨Event.wrap el content, box⟩ ∧ e = ⟨Event.wrap el content', box⟩ ∧
    Event.skeleton content = Event.skeleton content'

omit [Comparison] in
theorem Drawing.SameFrame.core {d e : Drawing} (h : SameFrame d e) : d.core = e.core := by
  obtain ⟨el, content, content', box, rfl, rfl, h⟩ := h
  simp only [Drawing.core, Event.skeleton_wrap, h]

namespace Reuse

theorem heedless_number (el : Element) (attr v : String) : Heedless (number el attr v) :=
  .after (heedless_expand _ _ _) fun _ => .ofExcept _

theorem heedless_merge (inst t : Element) (used : List String) : Heedless (merge inst t used) := by
  have turn : ∀ (t : Element) v, Heedless (ownTurn t v) := by
    intro t v
    cases v with
    | none => exact .pure rfl
    | some v => exact heedless_number _ _ _
  have attr : ∀ s a, Heedless (mergeAttr inst used s a) := by
    rintro ⟨t, p⟩ a
    unfold mergeAttr
    simp only
    split
    · exact .pure rfl
    · exact .pure rfl
    · exact .after (heedless_number _ _ _) fun _ => .pure rfl
    · exact .pure rfl
    · exact .after (heedless_number _ _ _) fun _ => .pure rfl
    · exact .after (heedless_number _ _ _) fun _ => .pure rfl
    · exact .pure rfl
  unfold merge
  simp only
  exact .after (turn _ _) fun _ => .after (.foldlM attr _ _) fun _ => .pure rfl

theorem heedless_applyShape (p : Placement) (t : Element) : Heedless (p.applyShape t) := by
  have shift : ∀ (t : Element) attr v, Heedless (shift t attr v) := by
    intro t attr v
    unfold Reuse.shift
    cases v with
    | none => exact .pure rfl
    | some v =>
      cases t.get? attr with
      | none => exact .pure rfl
      | some old => exact .after (.ofExcept _) fun _ => .pure rfl
  unfold Placement.applyShape
  simp only
  refine .ite (fun _ => .pure rfl) fun _ => .ite (fun _ => .pure rfl) fun _ => ?_
  exact .after (shift _ _ _) fun _ => shift _ _ _

/-- The element of a group with the steps that place it. -/
def Placement.place (p : Placement) (box : Option (Box Float)) (el : Element) : Element :=
  if (p.steps box).isEmpty then el else el.prependTransform (" ".intercalate (p.steps box))

omit [Comparison] in
/-- The tag that opens a group takes the steps that place it, whatever stands between the tags. -/
theorem applyGroup_wrap (p : Placement) (el : Element) (content : List Event) (box : Option (Box Float)) :
    p.applyGroup ⟨Event.wrap el content, box⟩ = (do
      let box' := box.map fun b =>
        if p.x.getD 0 == 0 && p.y.getD 0 == 0 then b else b.translate (p.x.getD 0) (p.y.getD 0)
      if box'.isSome && !(p.x.getD 0 == 0 && p.y.getD 0 == 0) then register (p.place box el) box'
      return ⟨Event.wrap (p.place box el) content, box'⟩) := by
  have hname : (p.place box el).name = el.name := by
    unfold Placement.place
    split
    · rfl
    · exact (stable_name (· = el.name)).prependTransform (by simp) rfl _
  unfold Placement.applyGroup Event.wrap
  cases content with
  | nil => rfl
  | cons e content =>
    rw [hname]
    rfl

theorem parallel_applyGroup (p : Placement) {d e : Drawing} (h : d.SameFrame e) :
    Parallel (By Drawing.core) (p.applyGroup d) (p.applyGroup e) := by
  obtain ⟨el, content, content', box, rfl, rfl, h⟩ := h
  rw [applyGroup_wrap, applyGroup_wrap]
  have drawn : ∀ box', By Drawing.core ⟨Event.wrap (p.place box el) content, box'⟩
      ⟨Event.wrap (p.place box el) content', box'⟩ := by
    intro box'
    simp only [By, Drawing.core, Event.skeleton_wrap, h]
  exact .ite (fun _ => .after (heedless_register _ _) fun _ => .pure (drawn _)) fun _ => .pure (drawn _)

theorem heedless_draw {draw group : Element → List Node → Order → Compile Drawing}
    (hd : ∀ el children order, HeedlessUpTo Drawing.core (draw el children order))
    (hg : ∀ el children order, Parallel Drawing.SameFrame (group el children order) (group el children order))
    (el : Element) (order : Order) : HeedlessUpTo Drawing.core (Reuse.draw draw group el order) := by
  unfold Reuse.draw
  refine .after (heedless_prepare _ _) fun inst => ?_
  rcases target inst with ⟨href, inst⟩
  refine .after (heedless_setCurrent _) fun _ => ?_
  cases href with
  | none => exact .throw _
  | some id =>
    refine .get fun c w hw => ?_
    have htemplate : (c.varied w).template? id = c.template? id := rfl
    rw [htemplate, Node.map_copy]
    cases c.template? id with
    | none => exact .throw _
    | some n =>
      cases n with
      | leaf l => exact .throw _
      | element t children =>
        refine .withDepth _ (.withFrame _ (.after (heedless_merge _ _ _) fun r => ?_))
        obtain ⟨t', p⟩ := r
        refine .ite (fun _ => (hg _ _ _).bind fun d e h => parallel_applyGroup p h) fun _ => ?_
        exact .after (heedless_applyShape _ _) fun t => hd _ _ _

end Reuse

/-! ## All elements -/

theorem parallel_drawContainer {inside : Inside} (hi : inside.Steady) (drawn : Bool) (el : Element)
    (children : List Node) (order : Order) :
    Parallel Drawing.SameFrame (drawContainer inside drawn el children order)
      (drawContainer inside drawn el children order) := by
  unfold drawContainer
  refine .after (heedless_prepare _ _) fun el => .withDepth _ ?_
  refine (Parallel.withFrame _ (hi.of el children _)).bind fun inner inner' h => ?_
  obtain ⟨content, box⟩ := inner
  obtain ⟨content', box'⟩ := inner'
  obtain ⟨hcontent, rfl⟩ := Drawing.mk.inj h
  refine .after (.ofExcept _) fun el => .after (heedless_register _ _) fun _ => .after (heedless_observe _) fun _ => ?_
  exact .pure ⟨el, content, content', _, rfl, rfl, hcontent⟩

theorem heedless_drawVerbatim (el : Element) (children : List Node) (order : Order) :
    Heedless (drawVerbatim el children order) :=
  .after (heedless_prepare _ _) fun _ => .after (heedless_observe _) fun _ => .pure rfl

theorem heedless_drawLeaf (l : Leaf) : Heedless (drawLeaf l) := by
  cases l with
  | text s => exact .get fun c w hw => .after (heedless_evaluating _ _ fun _ _ => ⟨rfl, rfl⟩) fun _ => .pure rfl
  | _ => exact .pure rfl

theorem heedless_drawNode {element : Element → List Node → Order → Compile Drawing}
    (he : ∀ el children order, HeedlessUpTo Drawing.core (element el children order))
    (n : Node) (order : Order) : HeedlessUpTo Drawing.core (drawNode element n order) := by
  cases n with
  | leaf l => exact (heedless_drawLeaf l).upTo _
  | element el children =>
    have body : HeedlessUpTo Drawing.core (withCurrent el do
        let d ← element el children order
        if (← get).options.debug && !d.events.isEmpty then
          return { d with events := debugComment el :: d.events }
        return d) := by
      refine .withCurrent _ ((he _ _ _).bind fun d e h => .get fun c w hw => ?_)
      -- The request differs, and the comment does not show.
      split <;> split <;> exact .pure h
    unfold drawNode
    exact .ite (fun _ => .after (.modify fun c w =>
      ⟨c.registerWritten_varied w _ _, c.chance_registerWritten _ _⟩) fun _ => body) fun _ => body

/-- Every element is drawn alike, whatever its role. -/
theorem heedless_drawElement (turnBound levels : Nat) : ∀ el children order,
    HeedlessUpTo Drawing.core (drawElement turnBound levels el children order) := by
  induction levels with
  | zero => exact fun _ _ _ => .throw _
  | succ levels ih =>
    intro el children order
    have hi : Inside.Steady (Siblings.draw (drawNode (drawElement turnBound levels))) :=
      Siblings.heedless_draw (heedless_drawNode ih) (stepSound_drawNode (ensures_drawElement (fun _ _ => trivial) _ _))
    unfold drawElement
    simp only
    cases Role.ofName el.name with
    | loop => exact Control.heedless_loop hi _ _ _ _
    | each => exact Control.heedless_each hi _ _ _
    | branch => exact Control.heedless_branch hi _ _ _
    | assign => exact (Control.heedless_assign _ _).upTo _
    | config => exact (Control.heedless_config _ _).upTo _
    | defaults => exact (Control.heedless_defaults _ _).upTo _
    | templates => exact (Control.heedless_templates _).upTo _
    | reuse => exact Reuse.heedless_draw ih (parallel_drawContainer hi true) _ _
    | gradient => exact .after (heedless_prepare _ _) fun el => Gradient.heedless_draw hi el children
    | textBox => exact .after (heedless_prepare _ _) fun el => Figure.heedless_textBox hi el children
    | person => exact .after (heedless_prepare _ _) fun el => (Figure.heedless_person el).upTo _
    | pipeline => exact .after (heedless_prepare _ _) fun el => Figure.heedless_pipeline hi el children
    | verbatim => exact (heedless_drawVerbatim _ _ _).upTo _
    | container drawn => exact (parallel_drawContainer hi drawn _ _ _).mono fun _ _ h => h.core
    | shape => exact .after (heedless_prepare _ _) fun el => Figure.heedless_shape hi heedless_setCurrent el children

/-! ## Documents -/

namespace Root

theorem heedless_draw (b : Bounds) (el : Element) (content : List Node) :
    HeedlessUpTo (fun r : Element × Drawing × List Deferral => (r.1, r.2.1.core, r.2.2)) (draw b el content) := by
  have hi : Inside.Steady (drawInside b) :=
    Siblings.heedless_draw (heedless_drawNode (heedless_drawElement _ _))
      (stepSound_drawNode (ensures_drawElement (fun _ _ => trivial) _ _))
  unfold draw
  refine .after (heedless_setCurrent _) fun _ => .after (heedless_expandElement _) fun el => ?_
  refine .after (heedless_setCurrent _) fun _ => (hi content _).bind fun r r' h => .pure ?_
  exact congrArg (Prod.mk el) h

end Root

/-- The errors are the same, or the order of checks is not and they report two values of one frame. -/
inductive CompileError.Corresponds (sameOrder : Prop) : CompileError → CompileError → Prop where
  | refl (e : CompileError) : Corresponds sameOrder e e
  | rivals {e e' : DocError} (h : ¬ sameOrder) (hr : e.Rivals e') : Corresponds sameOrder (.ofError e) (.ofError e')

end Documents

end DiagramMarkup
