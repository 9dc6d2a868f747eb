import DiagramMarkup.Proofs.Flatness
import DiagramMarkup.Proofs.Restoration

/-!
# Two runs in agreement

The same step, run in two contexts that differ only in what is resolved, may go through in one and be interrupted by a
deferral in the other. The contexts agree if they are alike in the scope, the target of `^` and all that these depend on
(`Context.Agrees`).

1. Expressions use the dice for nothing but draws (`Expr.leads_expand`), so if no draw shows behind a run, there was
   none at any point of it.
2. Steps that only read what the two runs have in common do the same in both (`Same`). Steps that leave the scope and
   the target of `^` alone may run in one and be skipped in the other (`Still`).
3. Sequences of these leave the two runs in agreement although one is interrupted (`Twin`), and what is borrowed for
   such a sequence and given back does no harm (`Twin.borrow`).
-/

namespace DiagramMarkup

/-! ## The dice -/

namespace Expr

/-- The dice later on: draws may have been made. -/
structure Dice.Leads (d e : Dice) : Prop where
  source : e.source = d.source
  drawn : d.drawn ≤ e.drawn

theorem Dice.Leads.refl (d : Dice) : d.Leads d := ⟨rfl, Nat.le_refl _⟩

variable {d : Dice}

theorem leads_draw : Builtin.KeptByDraws d.Leads := fun request e he =>
  ⟨⟨he.source, he.drawn.trans ((Nat.le_succ _).trans (Nat.le_add_right _ (request e.source e.drawn).2))⟩,
    fun _ _ => trivial⟩

theorem leads_eval (env : Env) (s : String) : Ensures d.Leads (eval env s) fun _ => True :=
  (ensures_eval leads_draw env s).mono fun _ _ => trivial

theorem leads_expandFuel (env : Env) (source : String) (fuel : Nat) (cs : List Char) :
    Ensures d.Leads (expandFuel env source fuel cs) fun _ => True := by
  induction fuel generalizing cs with
  | zero => exact .pure trivial
  | succ fuel ih =>
    unfold expandFuel
    split
    · exact .pure trivial
    split
    · exact .throw
    · exact .bind (leads_eval env _) fun _ _ => .bind (ih _) fun _ _ => .pure trivial

/-- Expansion makes no other use of the dice than to draw. -/
theorem leads_expand (env : Env) (s : String) : Ensures d.Leads (expand env s) fun _ => True := by
  unfold expand
  split
  · exact .bind (leads_expandFuel env _ _ _) fun _ _ => .pure trivial
  · exact .pure trivial

end Expr

/-! ## Two runs -/

open Compile Regime

/-- There are no config elements and no instances, and assignments and defaults only if so said: the options stay, and
the dice are only drawn. -/
def Regime.fixed (assigns : Prop) (o : Options) (d : Expr.Dice) : Regime where
  tag n := n ≠ "config" ∧ n ≠ "reuse" ∧ (n = "var" ∨ n = "defaults" → assigns)
  attr _ := True
  options := (· = o)
  dice := d.Leads
  exhausts := True
  size := 0
  nesting := 0
  turns := 0
  tag_group := ⟨by decide, by decide, fun h => absurd h (by decide)⟩
  attr_given _ _ := trivial
  options_set h _ _ _ := absurd rfl h.1
  dice_expand env s h := (Expr.leads_expand env s _ h).1
  dice_eval env s h := (Expr.leads_eval env s _ h).1
  dice_start _ h := absurd rfl h.1
  nesting_le _ := .inl trivial
  turns_le _ := .inl trivial

namespace Regime

variable {o : Options} {d : Expr.Dice}

theorem assigns_var : (fixed True o d).tag "var" := ⟨by decide, by decide, fun _ => trivial⟩

theorem assigns_defaults : (fixed True o d).tag "defaults" := ⟨by decide, by decide, fun _ => trivial⟩

theorem holds_fixed (assigns : Prop) (c : Context) :
    (fixed assigns c.options c.dice).Holds c.depth ((fixed assigns c.options c.dice).Within c.scope) c :=
  ⟨rfl, rfl, .refl _, ⟨.refl _, fun _ _ _ _ => trivial⟩, fun h => absurd rfl h.2.1, fun h => absurd rfl h.2.1⟩

end Regime

/-- The contexts are alike in all that a node can leave to its followers, and in what this depends on. -/
structure Context.Agrees (c d : Context) : Prop where
  options : d.options = c.options
  dice : d.dice = c.dice
  scope : d.scope = c.scope
  prev : d.prev = c.prev
  depth : d.depth = c.depth

namespace Context.Agrees

variable {c d e : Context}

theorem symm (h : c.Agrees d) : d.Agrees c :=
  ⟨h.options.symm, h.dice.symm, h.scope.symm, h.prev.symm, h.depth.symm⟩

theorem trans (h : c.Agrees d) (h' : d.Agrees e) : c.Agrees e :=
  ⟨h'.options.trans h.options, h'.dice.trans h.dice, h'.scope.trans h.scope, h'.prev.trans h.prev,
    h'.depth.trans h.depth⟩

/-- Expressions see the same, and so have the same value. -/
theorem runExpr {β : Type} (h : c.Agrees d) (m : Expr.Env → Expr.TextM β) :
    (d.runExpr (m d.env)).1 = (c.runExpr (m c.env)).1 ∧
      (c.runExpr (m c.env)).2.Agrees (d.runExpr (m d.env)).2 := by
  have env : d.env = c.env := by
    unfold Context.env
    rw [h.scope, h.options]
  unfold Context.runExpr
  rw [env, h.dice]
  exact ⟨rfl, h.options, rfl, h.scope, h.prev, h.depth⟩

theorem markSeen (h : c.Agrees d) (id : String) : (c.markSeen id).Agrees (d.markSeen id) := by
  unfold Context.markSeen
  split
  · exact h
  · exact ⟨h.options, h.dice, h.scope, h.prev, h.depth⟩

/-- What is known of elements as written is of no account. -/
theorem registerWritten (h : c.Agrees d) (id : String) (n : Node) :
    (c.registerWritten id n).Agrees (d.registerWritten id n) := by
  have own : ∀ c : Context, c.Agrees (c.registerWritten id n) := by
    intro c
    unfold Context.registerWritten
    split <;> exact ⟨rfl, rfl, rfl, rfl, rfl⟩
  exact (own c).symm.trans (h.trans (own d))

theorem aim (h : c.Agrees d) (n : Node) (order : Order) :
    (Siblings.aim n order c).Agrees (Siblings.aim n order d) := by
  unfold Siblings.aim
  split
  · exact ⟨h.options, h.dice, h.scope, rfl, h.depth⟩
  · exact h

end Context.Agrees

/-- The outcome is a result or a deferral. -/
def Soft {α : Type} : Except Failure α → Prop
  | .ok _ | .error (.deferred _) => True
  | .error _ => False

section Runs

variable {α β : Type} {m : Compile α} {f : α → Compile β}

theorem Soft.of_bind {c : Context} (h : Soft (exec (m >>= f) c).1) : Soft (exec m c).1 := by
  rw [exec_bind] at h
  rcases hm : exec m c with ⟨e | a, d⟩ <;> rw [hm] at h
  · cases e <;> exact h
  · exact trivial

theorem Soft.of_final {c : Context} (h : Soft (exec m c).1) (hm : Fails Failure.Final m) :
    ∃ a d, exec m c = (.ok a, d) := by
  rcases hrun : exec m c with ⟨e | a, d⟩
  · rw [hrun] at h
    cases e with
    | deferred w => exact absurd rfl (hm c _ (by rw [hrun]) w)
    | error e => exact h.elim
    | exhausted => exact h.elim
  · exact ⟨a, d, rfl⟩

/-- The step keeps the options, the dice but for draws, and the depth. -/
def Calm (m : Compile α) : Prop :=
  ∀ o d depth s, (fixed True o d).Meets depth ((fixed True o d).Within s) m fun _ => True

/-- The step leaves the scope and the target of `^` alone. -/
structure Still (m : Compile α) : Prop where
  calm : Calm m
  scope : ∀ c, (exec m c).2.scope = c.scope
  prev : ∀ c, (exec m c).2.prev = c.prev

/-- The step does not wait, and does the same in contexts that agree. -/
structure Same (m : Compile α) : Prop where
  calm : Calm m
  same : ∀ {c d : Context}, c.Agrees d → Soft (exec m c).1 → Soft (exec m d).1 →
    ∃ a c' d', exec m c = (.ok a, c') ∧ exec m d = (.ok a, d') ∧ c'.Agrees d'

/-- Contexts that agree do so still behind the step, drawn or interrupted, if nothing was drawn from the dice. -/
structure Twin (m : Compile α) : Prop where
  calm : Calm m
  agrees : ∀ {c d : Context}, c.Agrees d → Soft (exec m c).1 → Soft (exec m d).1 →
    (exec m c).2.dice = c.dice → (exec m d).2.dice = d.dice → (exec m c).2.Agrees (exec m d).2

namespace Calm

theorem of_holds (h : ∀ {o d depth s c}, (fixed True o d).Holds depth ((fixed True o d).Within s) c →
    (fixed True o d).Holds depth ((fixed True o d).Within s) (exec m c).2) : Calm m := by
  refine fun o d depth s c hc => ⟨h hc, ?_⟩
  split
  · trivial
  · exact fun _ => trivial

theorem bind_of {R : α → Prop} (hm : Calm m) (hr : Ensures (fun _ => True) m R) (hf : ∀ a, R a → Calm (f a)) :
    Calm (m >>= f) := by
  refine of_holds fun {o d depth s c} hc => ?_
  have hd := (hm o d depth s c hc).1
  rw [exec_bind]
  rcases hrun : exec m c with ⟨e | a, c'⟩ <;> rw [hrun] at hd
  · exact hd
  · exact (hf a ((hr c trivial).2 a (by rw [hrun])) o d depth s c' hd).1

theorem bind (hm : Calm m) (hf : ∀ a, Calm (f a)) : Calm (m >>= f) :=
  fun o d depth s => .bind (hm o d depth s) fun a _ => hf a o d depth s

theorem holds (hm : Calm m) (c : Context) : (fixed True c.options c.dice).Holds c.depth
    ((fixed True c.options c.dice).Within c.scope) (exec m c).2 :=
  (hm c.options c.dice c.depth c.scope c (holds_fixed True c)).1

theorem options (hm : Calm m) (c : Context) : (exec m c).2.options = c.options := (hm.holds c).options

theorem depth (hm : Calm m) (c : Context) : (exec m c).2.depth = c.depth := (hm.holds c).depth

theorem dice (hm : Calm m) (c : Context) : c.dice.Leads (exec m c).2.dice := (hm.holds c).dice

end Calm

/-- If there was no draw behind two steps, there was none between them. -/
theorem Expr.Dice.Leads.antisymm {d e : Dice} (h : d.Leads e) (h' : e.Leads d) : e = d := by
  obtain ⟨source, drawn⟩ := d
  obtain ⟨source', drawn'⟩ := e
  obtain ⟨rfl, hle⟩ := h
  obtain ⟨-, hle'⟩ := h'
  have : drawn' = drawn := Nat.le_antisymm hle' hle
  rw [this]

/-- A sequence without draws has none in its parts. -/
theorem dice_of_bind {c d : Context} {a : α} (hm : Calm m) (hf : Calm (f a)) (h : exec m c = (.ok a, d))
    (hdice : (exec (m >>= f) c).2.dice = c.dice) : d.dice = c.dice ∧ (exec (f a) d).2.dice = d.dice := by
  rw [exec_bind_ok h] at hdice
  have first := hm.dice c
  rw [h] at first
  have second := hf.dice d
  rw [hdice] at second
  have : d.dice = c.dice := first.antisymm second
  exact ⟨this, hdice.trans this.symm⟩

namespace Still

theorem pure (a : α) : Still (pure a : Compile α) := ⟨fun _ _ _ _ => .pure trivial, fun _ => rfl, fun _ => rfl⟩

theorem throw (e : Failure) : Still (throw e : Compile α) :=
  ⟨fun _ _ _ _ => .throw fun _ => trivial, fun _ => rfl, fun _ => rfl⟩

theorem get : Still (get : Compile Context) :=
  ⟨fun _ _ _ _ => .mono .get fun _ _ => trivial, fun _ => rfl, fun _ => rfl⟩

theorem bind_of {R : α → Prop} (hm : Still m) (hr : Ensures (fun _ => True) m R) (hf : ∀ a, R a → Still (f a)) :
    Still (m >>= f) := by
  refine ⟨hm.calm.bind_of hr fun a ha => (hf a ha).calm, fun c => ?_, fun c => ?_⟩
  · have := hm.scope c
    rw [exec_bind]
    rcases h : exec m c with ⟨e | a, d⟩ <;> rw [h] at this
    · exact this
    · exact ((hf a ((hr c trivial).2 a (by rw [h]))).scope d).trans this
  · have := hm.prev c
    rw [exec_bind]
    rcases h : exec m c with ⟨e | a, d⟩ <;> rw [h] at this
    · exact this
    · exact ((hf a ((hr c trivial).2 a (by rw [h]))).prev d).trans this

theorem bind (hm : Still m) (hf : ∀ a, Still (f a)) : Still (m >>= f) :=
  hm.bind_of (R := fun _ => True) (fun _ _ => ⟨trivial, fun _ _ => trivial⟩) fun a _ => hf a

theorem ofExcept (r : Except Failure α) : Still (ofExcept r : Compile α) := by
  cases r with
  | ok a => exact pure a
  | error e => exact throw e

theorem forM {f : α → Compile PUnit} (h : ∀ a, Still (f a)) (as : List α) : Still (as.forM f) := by
  induction as with
  | nil => exact pure _
  | cons a as ih => exact (h a).bind fun _ => ih

theorem mapM {as : List α} (h : ∀ a ∈ as, Still (f a)) : Still (as.mapM f) := by
  induction as with
  | nil => exact pure _
  | cons a as ih =>
    obtain ⟨ha, has⟩ := List.forall_mem_cons.1 h
    rw [List.mapM_cons]
    exact ha.bind fun _ => (ih has).bind fun _ => pure _

/-- It does not matter whether such a step is run. -/
theorem twin (hm : Still m) : Twin m := by
  refine ⟨hm.calm, fun {c d} h _ _ hc hd => ⟨?_, ?_, ?_, ?_, ?_⟩⟩
  · rw [hm.calm.options, hm.calm.options, h.options]
  · rw [hc, hd, h.dice]
  · rw [hm.scope, hm.scope, h.scope]
  · rw [hm.prev, hm.prev, h.prev]
  · rw [hm.calm.depth, hm.calm.depth, h.depth]

end Still

namespace Same

theorem twin (hm : Same m) : Twin m := by
  refine ⟨hm.calm, fun h sc sd _ _ => ?_⟩
  obtain ⟨a, c', d', hc, hd, hagree⟩ := hm.same h sc sd
  rw [hc, hd]
  exact hagree

theorem pure (a : α) : Same (pure a : Compile α) :=
  ⟨(Still.pure a).calm, fun {c d} h _ _ => ⟨a, c, d, rfl, rfl, h⟩⟩

theorem ofExcept {r : Except Failure α} (h : Blames Failure.Final r) : Same (ofExcept r : Compile α) := by
  cases r with
  | ok a => exact pure a
  | error e =>
    refine ⟨(Still.throw e).calm, fun _ sc _ => ?_⟩
    cases e with
    | deferred w => exact absurd rfl (h _ rfl w)
    | error e => exact sc.elim
    | exhausted => exact sc.elim

theorem bind (hm : Same m) (hf : ∀ a, Same (f a)) : Same (m >>= f) := by
  refine ⟨hm.calm.bind fun a => (hf a).calm, fun h sc sd => ?_⟩
  obtain ⟨a, c', d', hc, hd, hagree⟩ := hm.same h sc.of_bind sd.of_bind
  rw [exec_bind_ok hc] at sc ⊢
  rw [exec_bind_ok hd] at sd ⊢
  exact (hf a).same hagree sc sd

/-- What is read of the context is the same in contexts that agree. -/
theorem get {f : Context → Compile β} (hf : ∀ c, Same (f c)) (h : ∀ {c d : Context}, c.Agrees d → f d = f c) :
    Same (get >>= f) := by
  refine ⟨Still.get.calm.bind fun c => (hf c).calm, fun {c d} hcd sc sd => ?_⟩
  rw [exec_bind_ok (exec_get c)] at sc ⊢
  rw [exec_bind_ok (exec_get d), h hcd] at sd ⊢
  exact (hf c).same hcd sc sd

theorem modify {f : Context → Context} (calm : Calm (modify f))
    (h : ∀ {c d : Context}, c.Agrees d → (f c).Agrees (f d)) : Same (modify f : Compile Unit) :=
  ⟨calm, fun {c d} hcd _ _ => ⟨(), f c, f d, rfl, rfl, h hcd⟩⟩

theorem update {f : Context → Except Failure Context} (calm : Calm (Compile.update f))
    (hE : ∀ c, Blames Failure.Final (f c))
    (h : ∀ {c d c' d' : Context}, c.Agrees d → f c = .ok c' → f d = .ok d' → c'.Agrees d') :
    Same (Compile.update f) := by
  have final : Fails Failure.Final (Compile.update f) := by
    intro c e he
    rw [exec_update] at he
    cases hf : f c with
    | error e' =>
      rw [hf] at he
      cases he
      exact hE c e hf
    | ok d =>
      rw [hf] at he
      cases he
  refine ⟨calm, fun {c d} hcd sc sd => ?_⟩
  obtain ⟨a, c', hc⟩ := sc.of_final final
  obtain ⟨b, d', hd⟩ := sd.of_final final
  refine ⟨(), c', d', hc, hd, ?_⟩
  rw [exec_update] at hc hd
  cases hfc : f c with
  | error e => rw [hfc] at hc; cases hc
  | ok c'' =>
    cases hfd : f d with
    | error e => rw [hfd] at hd; cases hd
    | ok d'' =>
      rw [hfc] at hc
      rw [hfd] at hd
      cases hc
      cases hd
      exact h hcd hfc hfd

theorem foldlM {f : β → α → Compile β} (h : ∀ b a, Same (f b a)) (as : List α) (b : β) : Same (as.foldlM f b) := by
  induction as generalizing b with
  | nil => exact pure b
  | cons a as ih =>
    rw [List.foldlM_cons]
    exact (h b a).bind fun b => ih b

theorem mapM (h : ∀ a, Same (f a)) (as : List α) : Same (as.mapM f) := by
  induction as with
  | nil => exact pure _
  | cons a as ih =>
    rw [List.mapM_cons]
    exact (h a).bind fun _ => ih.bind fun _ => pure _

theorem forM {f : α → Compile PUnit} (h : ∀ a, Same (f a)) (as : List α) : Same (as.forM f) := by
  induction as with
  | nil => exact pure _
  | cons a as ih => exact (h a).bind fun _ => ih

end Same

namespace Twin

/-- Two runs may part after steps that do the same. -/
theorem after (hm : Same m) (hf : ∀ a, Twin (f a)) : Twin (m >>= f) := by
  refine ⟨hm.calm.bind fun a => (hf a).calm, fun h sc sd hc hd => ?_⟩
  obtain ⟨a, c', d', rc, rd, hagree⟩ := hm.same h sc.of_bind sd.of_bind
  have dc := (dice_of_bind hm.calm (hf a).calm rc hc).2
  have dd := (dice_of_bind hm.calm (hf a).calm rd hd).2
  rw [exec_bind_ok rc] at sc ⊢
  rw [exec_bind_ok rd] at sd ⊢
  exact (hf a).agrees hagree sc sd dc dd

/-- A step that leaves things alone may be skipped when the one before it is interrupted. -/
theorem bind_of {R : α → Prop} (hm : Twin m) (hr : Ensures (fun _ => True) m R) (hf : ∀ a, R a → Still (f a)) :
    Twin (m >>= f) := by
  -- Either run agrees at its end with itself behind the first step, interrupted there or not.
  have settled : ∀ c, (exec (m >>= f) c).2.dice = c.dice →
      (exec m c).2.dice = c.dice ∧ (exec m c).2.Agrees (exec (m >>= f) c).2 := by
    intro c hdice
    rcases hrun : exec m c with ⟨e | a, d⟩
    · rw [exec_bind_error hrun] at hdice ⊢
      exact ⟨hdice, rfl, rfl, rfl, rfl, rfl⟩
    · have still := hf a ((hr c trivial).2 a (by rw [hrun]))
      obtain ⟨first, second⟩ := dice_of_bind hm.calm still.calm hrun hdice
      rw [exec_bind_ok hrun]
      exact ⟨first, still.calm.options d, second, still.scope d, still.prev d, still.calm.depth d⟩
  refine ⟨hm.calm.bind_of hr fun a ha => (hf a ha).calm, fun {c d} h sc sd hc hd => ?_⟩
  obtain ⟨dc, ac⟩ := settled c hc
  obtain ⟨dd, ad⟩ := settled d hd
  exact ac.symm.trans ((hm.agrees h sc.of_bind sd.of_bind dc dd).trans ad)

theorem bind (hm : Twin m) (hf : ∀ a, Still (f a)) : Twin (m >>= f) :=
  hm.bind_of (R := fun _ => True) (fun _ _ => ⟨trivial, fun _ _ => trivial⟩) fun a _ => hf a

/-- Steps that never wait may give different results to what follows them. -/
theorem mapM {as : List α} (hf : ∀ a ∈ as, Twin (f a)) (final : ∀ a ∈ as, Fails Failure.Final (f a)) :
    Twin (as.mapM f) := by
  induction as with
  | nil => exact (Still.pure _).twin
  | cons a as ih =>
    obtain ⟨ha, has⟩ := List.forall_mem_cons.1 hf
    obtain ⟨fa, fas⟩ := List.forall_mem_cons.1 final
    have rest : ∀ b, Twin (do let bs ← as.mapM f; Pure.pure (b :: bs)) :=
      fun b => (ih has fas).bind fun bs => .pure _
    rw [List.mapM_cons]
    refine ⟨ha.calm.bind fun b => (rest b).calm, fun {c d} h sc sd hc hd => ?_⟩
    obtain ⟨b, c', rc⟩ := sc.of_bind.of_final fa
    obtain ⟨b', d', rd⟩ := sd.of_bind.of_final fa
    obtain ⟨dc, ec⟩ := dice_of_bind ha.calm (rest b).calm rc hc
    obtain ⟨dd, ed⟩ := dice_of_bind ha.calm (rest b').calm rd hd
    have agree := ha.agrees h sc.of_bind sd.of_bind (by rw [rc]; exact dc) (by rw [rd]; exact dd)
    rw [rc, rd] at agree
    rw [exec_bind_ok rc] at sc ⊢
    rw [exec_bind_ok rd] at sd ⊢
    have tail : ∀ b c, (exec (do let bs ← as.mapM f; Pure.pure (b :: bs)) c).2 = (exec (as.mapM f) c).2 := by
      intro b c
      rw [exec_bind]
      rcases exec (as.mapM f) c with ⟨e | bs, c'⟩ <;> rfl
    rw [tail] at ec ed ⊢
    rw [tail]
    exact (ih has fas).agrees agree sc.of_bind sd.of_bind ec ed

/-- Something is borrowed for a step, in the same way in both runs, and given back. -/
theorem borrow {b : Context → Except Failure Context} {g : Context → Context} (hm : Twin m)
    (calm : Calm (do Compile.update b; bracket m g)) (hE : ∀ c, Blames Failure.Final (b c))
    (hb : ∀ {c d c' d' : Context}, c.Agrees d → b c = .ok c' → b d = .ok d' → c'.Agrees d')
    (hg : ∀ {c d : Context}, c.Agrees d → (g c).Agrees (g d))
    (dice : ∀ {c c' : Context}, b c = .ok c' → c'.dice = c.dice) (dice' : ∀ c, (g c).dice = c.dice) :
    Twin (do Compile.update b; bracket m g) := by
  have run : ∀ {c : Context}, Soft (exec (do Compile.update b; bracket m g) c).1 →
      ∃ c', b c = .ok c' ∧
        exec (do Compile.update b; bracket m g) c = ((exec m c').1, g (exec m c').2) := by
    intro c hc
    cases hbc : b c with
    | error e =>
      rw [exec_bind, exec_update, hbc] at hc
      cases e with
      | deferred w => exact absurd rfl (hE c _ hbc w)
      | error e => exact hc.elim
      | exhausted => exact hc.elim
    | ok c' =>
      refine ⟨c', rfl, ?_⟩
      rw [exec_bind, exec_update, hbc]
      rfl
  refine ⟨calm, fun {c d} h sc sd hc hd => ?_⟩
  obtain ⟨c', hbc, rc⟩ := run sc
  obtain ⟨d', hbd, rd⟩ := run sd
  rw [rc] at sc hc ⊢
  rw [rd] at sd hd ⊢
  rw [dice'] at hc hd
  exact hg (hm.agrees (hb h hbc hbd) sc sd (hc.trans (dice hbc).symm) (hd.trans (dice hbd).symm))

theorem withFrame (hm : Twin m) (vars : Frame) : Twin (withFrame vars m) := by
  refine hm.borrow (fun o d depth s => .loosen fun t => meets_withFrame vars fun u => hm.calm o d depth u)
    (fun c => c.blames_pushFrame Failure.final_error vars) ?_ ?_ ?_ fun _ => rfl
  · intro c d c' d' h hc hd
    rw [Context.pushFrame_eq_ok hc, Context.pushFrame_eq_ok hd]
    exact ⟨h.options, h.dice, congrArg (Scope.push · vars) h.scope, h.prev, h.depth⟩
  · exact fun h => ⟨h.options, h.dice, congrArg Scope.pop h.scope, h.prev, h.depth⟩
  · intro c c' hc
    rw [Context.pushFrame_eq_ok hc]

theorem withDepth (hm : Twin m) (el : Element) : Twin (withDepth el m) := by
  refine hm.borrow (fun o d depth s => meets_withDepth el fun _ => hm.calm o d (depth + 1) s)
    (fun c => c.blames_enter Failure.final_error (some el)) ?_ ?_ ?_ fun _ => rfl
  · intro c d c' d' h hc hd
    rw [Context.enter_eq_ok hc, Context.enter_eq_ok hd]
    exact ⟨h.options, h.dice, h.scope, h.prev, congrArg (· + 1) h.depth⟩
  · exact fun h => ⟨h.options, h.dice, h.scope, h.prev, congrArg (· - 1) h.depth⟩
  · intro c c' hc
    rw [Context.enter_eq_ok hc]

theorem withCurrent (hm : Twin m) (el : Element) : Twin (withCurrent el m) := by
  refine ⟨fun o d depth s => meets_withCurrent el (hm.calm o d depth s), fun {c d} h sc sd hc hd => ?_⟩
  have same : Context.Agrees { c with current := some el } { d with current := some el } :=
    ⟨h.options, h.dice, h.scope, h.prev, h.depth⟩
  have agree := hm.agrees same sc sd hc hd
  exact ⟨agree.options, agree.dice, agree.scope, agree.prev, agree.depth⟩

end Twin

end Runs

/-! ## Small steps -/

namespace Same

theorem evaluating {α : Type} {el : Option Element} {attr : String} {f : Context → Except Expr.Error α × Context}
    (calm : Calm (Compile.evaluating el attr f))
    (h : ∀ {c d : Context}, c.Agrees d → (f d).1 = (f c).1 ∧ (f c).2.Agrees (f d).2) :
    Same (Compile.evaluating el attr f) := by
  refine ⟨calm, fun {c d} hcd sc _ => ?_⟩
  obtain ⟨hvalue, hagree⟩ := h hcd
  obtain ⟨a, c', hc⟩ := sc.of_final (fails_evaluating el attr f)
  rw [exec_evaluating] at hc
  rw [exec_evaluating, exec_evaluating]
  rcases hfc : f c with ⟨e | x, c''⟩
  · rw [hfc] at hc
    cases hc
  rcases hfd : f d with ⟨y, d''⟩
  rw [hfc, hfd] at hvalue hagree
  cases hvalue
  exact ⟨x, c'', d'', rfl, rfl, hagree⟩

theorem expand (el : Element) (attr s : String) : Same (Compile.expand el attr s) :=
  evaluating (fun _ _ _ _ => meets_expand el attr s) fun h => h.runExpr (Expr.expand · s)

theorem condition (el : Element) (attr s : String) : Same (Compile.condition el attr s) :=
  bind (evaluating (fun _ _ _ _ => meets_eval el attr s) fun h => h.runExpr fun env => do
    let s ← if Text.occurs Expr.openMark s.toList then Expr.expand env s else Pure.pure s
    Expr.eval env s) fun _ => pure _

theorem setCurrent (el : Element) : Same (Compile.setCurrent el) :=
  modify (fun _ _ _ _ => meets_setCurrent el) fun h => ⟨h.options, h.dice, h.scope, h.prev, h.depth⟩

theorem observe (el : Element) : Same (Compile.observe el) :=
  modify (fun _ _ _ _ => meets_observe el) fun h => ⟨h.options, h.dice, h.scope, h.prev, h.depth⟩

theorem expandElement (el : Element) : Same (Compile.expandElement el) := by
  unfold Compile.expandElement
  refine bind (foldlM (fun el p => bind (expand _ _ _) fun _ => pure _) _ _) fun el => ?_
  exact bind (mapM (fun c => bind (expand _ _ _) fun _ => pure _) _) fun _ => pure _

theorem prepare (el : Element) (order : Order) : Same (Compile.prepare el order) := by
  unfold Compile.prepare
  refine bind (setCurrent _) fun _ => bind (expandElement _) fun el => get (fun c => ?_) fun h => by rw [h.scope]
  refine bind (modify (fun _ _ _ _ => .modify fun d hd => (hd.markSeen _).withCurrent _) fun h => ?_) fun _ => pure _
  have seen := h.markSeen (c.scope.applyDefaults el).id
  exact ⟨seen.options, seen.dice, seen.scope, seen.prev, seen.depth⟩

theorem orFail {α : Type} (el : Element) (attr : String) (r : Except Fault α) : Same (Compile.orFail el attr r) :=
  ofExcept (.checked Failure.final_error el attr r)

theorem readNumber (el : Element) (attr s : String) : Same (Compile.readNumber el attr s) :=
  ofExcept (.numberIn Failure.final_error el attr s)

end Same

namespace Still

theorem observe (el : Element) : Still (Compile.observe el) :=
  ⟨fun _ _ _ _ => meets_observe el, fun _ => rfl, fun _ => rfl⟩

theorem register (el : Element) (box : Option (Box Float)) : Still (Compile.register el box) :=
  ⟨fun _ _ _ _ => meets_register el box, fun _ => rfl, fun _ => rfl⟩

end Still

end DiagramMarkup
