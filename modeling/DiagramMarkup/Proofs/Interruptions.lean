import DiagramMarkup.Proofs.Agreement

/-!
# Drawn or waiting

What follows a node among its siblings sees the variables, the defaults and the target of `^` that the node leaves. A
node may be drawn at once in one run and wait in another, where fewer elements are resolved. Whether its followers see a
difference depends on where the deferral interrupts it.

1. Containers, branches and gradients take all their content before they wait, so all that it assigns is assigned. What
   is drawn again later is drawn in the scope it was met in and leaves no trace (`Siblings.twin_draw`).
2. A shape waits for its place before it takes its content, and so do loops between their turns. That does no harm in a
   target of `^` in which nothing assigns (`scope_inert`).
3. If this is all there is (`Node.Walked`), followers see no difference. An assignment in a loop is seen.
-/

namespace DiagramMarkup

open Compile Regime

/-! ## Siblings -/

namespace Siblings

variable {step : Step} {P : Node → Prop}

/-- A retry leaves all that it does to the scope behind. -/
theorem still_retry {p : Pending} (h : Calm (step p.node p.order)) : Still (retry step p) := by
  refine ⟨.of_holds fun {o d depth s c} hc => ?_, fun c => ?_, fun c => ?_⟩
  · have hd := (h o d depth p.scope _ (hc.withScope ⟨.refl _, fun _ _ _ _ => trivial⟩ p.prev)).1
    rw [exec_retry]
    exact hd.withScope hc.scope c.prev
  · rw [exec_retry]
  · rw [exec_retry]

theorem pending_of_retry {p : Pending} (hp : P p.node) :
    Ensures (fun _ => True) (retry step p) (Sibling.Waiting (P ·.node)) := by
  refine fun c _ => ⟨trivial, fun s hs => ?_⟩
  obtain ⟨r, e, -, -, rfl⟩ := exec_retry_eq_ok (Prod.ext hs rfl)
  exact Sibling.waiting_ofAttempt (fun _ => hp) r

theorem still_passes (h : ∀ n order, P n → Calm (step n order)) (k : Nat) {chunks : List Chunk}
    {queue : List Pending} (hq : ∀ p ∈ queue, P p.node) : Still (passes step k chunks queue) := by
  induction k generalizing chunks queue with
  | zero => exact .pure _
  | succ k ih =>
    unfold passes
    split
    · exact .pure _
    refine .bind_of (.mapM fun p hp => still_retry (h p.node p.order (hq p hp)))
      (.mapM fun p hp => pending_of_retry (hq p hp)) fun tried ht => ?_
    simp only
    split
    · exact .pure _
    · exact ih fun _ => Sibling.of_mem_pendings ht

theorem fails_first (n : Node) (order : Order) : Fails Failure.Final (first step n order) :=
  .bind .get fun _ => .bind (fails_attempt _) fun _ => .bind .modify fun _ => .pure

theorem pending_of_first {n : Node} (hn : P n) (order : Order) :
    Ensures (fun _ => True) (first step n order) (Sibling.Waiting (P ·.node)) := by
  refine fun c _ => ⟨trivial, fun s hs => ?_⟩
  obtain ⟨r, e, -, -, rfl⟩ := exec_first_eq_ok (Prod.ext hs rfl)
  exact Sibling.waiting_ofAttempt (fun _ => hn) r

/-- Siblings leave two runs in agreement if each does when it is first met. -/
theorem twin_draw {nodes : List Node} (hn : ∀ n ∈ nodes, P n) (calm : ∀ n order, P n → Calm (step n order))
    (twin : ∀ n order, P n → Twin (first step n order)) (base : Order) : Twin (draw step nodes base) := by
  unfold draw
  have mem : ∀ p ∈ nodes.zipIdx, P p.1 := fun p hp => hn p.1 (List.fst_mem_of_mem_zipIdx hp)
  refine .bind_of (.mapM (fun p hp => twin p.1 _ (mem p hp)) fun p _ => fails_first p.1 _)
    (.mapM fun p hp => pending_of_first (mem p hp) _) fun tried ht => ?_
  exact .bind (still_passes calm _ fun _ => Sibling.of_mem_pendings ht) fun _ => .pure _

theorem calm_first {n : Node} (h : ∀ order, Calm (step n order)) (order : Order) : Calm (first step n order) :=
  fun o d depth s => (meets_first (P := (· = n)) (fun _ order hm => hm ▸ h order o d depth s) rfl order).mono
    fun _ _ => trivial

/-- A first attempt that settles ends where the step does, except that the node is the target of `^`. -/
theorem exec_first_of_soft {n : Node} {order : Order} {c : Context} (h : Soft (exec (first step n order) c).1) :
    Soft (exec (step n order) c).1 ∧
      (exec (first step n order) c).2 = aim n order (exec (step n order) c).2 := by
  unfold first at h ⊢
  rw [exec_bind_ok (exec_get c), exec_bind, exec_attempt] at h ⊢
  rcases hrun : exec (step n order) c with ⟨(w | e | _) | x, d⟩ <;> rw [hrun] at h
  · exact ⟨trivial, rfl⟩
  · exact h.elim
  · exact h.elim
  · exact ⟨trivial, rfl⟩

theorem dice_aim (n : Node) (order : Order) (c : Context) : (aim n order c).dice = c.dice := by
  unfold aim
  split <;> rfl

theorem twin_first {n : Node} (h : ∀ order, Twin (step n order)) (order : Order) : Twin (first step n order) := by
  refine ⟨calm_first (fun order => (h order).calm) order, fun {c d} hcd sc sd hc hd => ?_⟩
  obtain ⟨tc, rc⟩ := exec_first_of_soft sc
  obtain ⟨td, rd⟩ := exec_first_of_soft sd
  rw [rc, dice_aim] at hc
  rw [rd, dice_aim] at hd
  rw [rc, rd]
  exact ((h order).agrees hcd tc td hc hd).aim n order

/-- The target of `^` is the node itself, whatever became of the targets within it. -/
theorem twin_first_of_target {n : Node} (hn : Role.isTarget n) (h : ∀ order, Calm (step n order))
    (scope : ∀ order c, (exec (step n order) c).2.scope = c.scope) (order : Order) :
    Twin (first step n order) := by
  have calm := calm_first h order
  have kept : ∀ {c : Context}, Soft (exec (first step n order) c).1 →
      (exec (first step n order) c).2.scope = c.scope ∧ (exec (first step n order) c).2.prev = some order := by
    intro c hc
    rw [(exec_first_of_soft hc).2]
    unfold aim
    rw [if_pos hn]
    exact ⟨scope order c, rfl⟩
  refine ⟨calm, fun {c d} hcd sc sd hc hd => ⟨?_, ?_, ?_, ?_, ?_⟩⟩
  · rw [calm.options, calm.options, hcd.options]
  · rw [hc, hd, hcd.dice]
  · rw [(kept sc).1, (kept sd).1, hcd.scope]
  · rw [(kept sc).2, (kept sd).2]
  · rw [calm.depth, calm.depth, hcd.depth]

end Siblings

theorem Inside.twin_of {inside : Inside} {nodes : List Node} {order : Order} (h : Twin (inside nodes order))
    (el : Element) : Twin (inside.of el nodes order) := by
  unfold Inside.of
  refine h.bind fun r => ?_
  obtain ⟨d, stalled⟩ := r
  simp only
  split
  · exact .pure _
  · exact .throw _

/-! ## Elements -/

namespace Control

variable {inside : Inside} {children : List Node}

theorem same_assign (el : Element) (order : Order) : Same (assign el order) := by
  unfold assign
  refine .bind (.setCurrent _) fun _ => .bind (.forM (fun p => ?_) _) fun _ => .pure _
  refine .bind (.expand _ _ _) fun v => .update (fun _ _ _ _ => meets_setVar assigns_var p.1 v)
    (fun c => c.blames_setVar Failure.final_error p.1 v) fun {c d c' d'} h hc hd => ?_
  rw [Context.setVar_eq_ok hc, Context.setVar_eq_ok hd]
  exact ⟨h.options, h.dice, congrArg (Scope.setVar · p.1 v) h.scope, h.prev, h.depth⟩

theorem same_defaults (order : Order) : Same (defaults children order) := by
  unfold defaults
  refine .bind (.forM (fun p => ?_) _) fun _ => .pure _
  obtain ⟨n, i⟩ := p
  cases n with
  | leaf l => exact .pure _
  | element d cs =>
    refine .bind (.setCurrent _) fun _ => .bind (.expandElement _) fun d => ?_
    exact .modify (fun _ _ _ _ => meets_addDefault assigns_defaults fun _ _ => trivial) fun h =>
      ⟨h.options, h.dice, congrArg (Scope.addDefault · d) h.scope, h.prev, h.depth⟩

theorem still_templates : Still (templates children) := by
  have add : ∀ n, Still (addTemplate n) := by
    intro n
    refine ⟨fun _ _ _ _ => meets_addTemplate fun h => absurd rfl h.2.1, fun c => ?_, fun c => ?_⟩
    all_goals
      unfold addTemplate
      split
      · rfl
      split
      · rfl
      · rw [exec_modify]
        unfold Context.markSeen
        split <;> rfl
  unfold templates
  simp only
  split
  · exact .throw _
  · exact .bind (.forM add _) fun _ => .pure _

theorem twin_branch (hi : ∀ order, Twin (inside children order)) (el : Element) (order : Order) :
    Twin (branch inside el children order) := by
  unfold branch
  refine .after (.setCurrent _) fun _ => ?_
  split
  · exact (Still.throw _).twin
  refine .after (.expandElement _) fun el => .after (.setCurrent _) fun _ => .after (.condition _ _ _) fun b => ?_
  split
  · exact (Inside.twin_of (hi order) el).withFrame _
  · exact (Still.pure _).twin

end Control

section Elements

variable {inside : Inside} {children : List Node} (hi : ∀ order, Twin (inside children order))

include hi

theorem twin_drawContainer (drawn : Bool) (el : Element) (order : Order) :
    Twin (drawContainer inside drawn el children order) := by
  unfold drawContainer
  refine .after (.prepare el order) fun el => .withDepth ?_ _
  refine .bind (.withFrame (Inside.twin_of (hi _) el) _) fun inner => ?_
  exact .bind (.ofExcept _) fun el => .bind (.register _ _) fun _ => .bind (.observe _) fun _ => .pure _

theorem Gradient.twin_draw (el : Element) : Twin (Gradient.draw inside el children) := by
  unfold Gradient.draw
  have shaped : ∀ el dir length, Same (shaped el dir length) := by
    intro el dir length
    unfold Gradient.shaped
    refine .bind ?_ fun covered => ?_
    · unfold coverage
      split
      · exact .pure _
      · rw [map_eq_pure_bind]
        exact .bind (.orFail _ _ _) fun _ => .pure _
    split
    · refine .bind ?_ fun degrees => .pure _
      unfold degreesOf
      split
      · exact .pure _
      · exact .readNumber _ _ _
    split
    · exact .pure _
    · exact .pure _
  refine .after (shaped _ _ _) fun el => .after (.setCurrent _) fun _ => ?_
  refine .after (.forM (fun _ => .observe _) _) fun _ => ?_
  refine .bind (Inside.twin_of (hi _) el) fun inner => ?_
  exact .bind (.register _ _) fun _ => .bind (.observe _) fun _ => .pure _

end Elements

namespace Role

/-- Is the content of an element with this role left undrawn? -/
def unread : Role → Bool
  | .assign | .defaults | .templates | .verbatim => true
  | _ => false

/-- Is all content of an element with this role drawn before the element waits? -/
def walks : Role → Bool
  | .branch | .gradient | .container _ => true
  | _ => false

end Role

theorem same_drawLeaf (l : Leaf) : Same (drawLeaf l) := by
  cases l with
  | text s =>
    have run : ∀ c : Context, exec (drawLeaf (.text s)) c = match c.expand s with
        | (.ok t, d) => (.ok { events := [.text t] }, d)
        | (.error e, d) => (.error (.expr c.current "text" e), d) := by
      intro c
      unfold drawLeaf
      rw [exec_bind_ok (exec_get c), exec_bind, exec_evaluating]
      rcases c.expand s with ⟨_ | t, d⟩ <;> rfl
    refine ⟨fun _ _ _ _ => meets_drawLeaf _, fun {c d} h sc _ => ?_⟩
    obtain ⟨hvalue, hagree⟩ : (d.expand s).1 = (c.expand s).1 ∧ (c.expand s).2.Agrees (d.expand s).2 :=
      h.runExpr (Expr.expand · s)
    rw [run] at sc ⊢
    rw [run]
    rcases hc : c.expand s with ⟨e | t, c'⟩ <;> rw [hc] at sc hvalue hagree
    · exact sc.elim
    · rcases hd : d.expand s with ⟨r, d'⟩
      rw [hd] at hvalue hagree
      cases hvalue
      exact ⟨_, c', d', rfl, rfl, hagree⟩
  | _ => exact .pure _

theorem twin_drawNode {element : Element → List Node → Order → Compile Drawing} {el : Element}
    {children : List Node} {order : Order} (h : Twin (element el children order)) :
    Twin (drawNode element (.element el children) order) := by
  have drawn : Twin (withCurrent el do
      let d ← element el children order
      if (← get).options.debug && !d.events.isEmpty then
        return { d with events := debugComment el :: d.events }
      return d) := by
    refine .withCurrent (h.bind fun d => .bind .get fun c => ?_) _
    split <;> exact .pure _
  unfold drawNode
  simp only
  split
  · exact .after (.modify (fun _ _ _ _ => .modify fun c hc => hc.registerWritten _ fun hr => absurd rfl hr.2.1)
      fun h => h.registerWritten _ _) fun _ => drawn
  · exact drawn

section Drawing

variable {turns levels : Nat} {el : Element} {children : List Node}

theorem twin_drawElement_of_unread (hrole : (Role.ofName el.name).unread) (order : Order) :
    Twin (drawElement turns levels el children order) := by
  cases levels with
  | zero => exact (Still.throw _).twin
  | succ levels =>
    unfold drawElement
    simp only
    cases hname : Role.ofName el.name with
    | assign => exact (Control.same_assign el order).twin
    | defaults => exact (Control.same_defaults order).twin
    | templates => exact Control.still_templates.twin
    | verbatim => exact .after (.prepare el order) fun el => Still.twin (.bind (.observe _) fun _ => .pure _)
    | loop | each | branch | config | reuse | gradient | textBox | person | pipeline | container drawn | shape =>
      rw [hname] at hrole
      cases hrole

end Drawing

/-! ## Trees -/

namespace Node

/-- Nothing in the tree assigns variables, defines defaults, changes options or is an instance. -/
def Inert (n : Node) : Prop := n.Fits fun el => el.name ∉ ["var", "defaults", "config", "reuse"]

/-- A deferral keeps no assignment of the tree from being made: what assigns is taken before anything waits, and what
may be interrupted, shapes and loops, stands in a target of `^` in which nothing assigns. -/
inductive Walked : Node → Prop
  | leaf (l : Leaf) : Walked (.leaf l)
  | target {n : Node} (inert : n.Inert) (target : Role.isTarget n) : Walked n
  | unread {el : Element} {children : List Node} (role : (Role.ofName el.name).unread) : Walked (.element el children)
  | walks {el : Element} {children : List Node} (role : (Role.ofName el.name).walks)
      (content : ∀ n ∈ children, Walked n) : Walked (.element el children)

end Node

section Inert

variable (turns levels : Nat) {n : Node} (hn : n.Inert) (order : Order)

include hn

/-- A tree in which nothing assigns keeps to the fixed regimes. -/
theorem meets_inert (assigns : Prop) (o : Options) (d : Expr.Dice) (depth : Nat) (s : Scope) :
    (fixed assigns o d).Meets depth ((fixed assigns o d).Within s) (drawNode (drawElement turns levels) n order)
      fun _ => True := by
  have fits : (fixed assigns o d).Fits n := by
    refine ⟨fun e he el hel => ⟨?_, fun _ _ => trivial⟩, .inl trivial⟩
    have := hn e he el hel
    simp only [List.mem_cons, List.not_mem_nil, or_false, not_or] at this
    exact ⟨this.2.2.1, this.2.2.2, fun h => (h.elim this.1 this.2.1).elim⟩
  exact meets_drawNode (fun _ _ _ _ _ => fits) fun el children heq =>
    meets_drawElement (.inl trivial) levels order (heq ▸ fits) (.inl trivial)

theorem scope_inert (c : Context) : (exec (drawNode (drawElement turns levels) n order) c).2.scope = c.scope := by
  have kept := (meets_inert turns levels hn order False _ _ _ _ c (holds_fixed False c)).1.scope.shape
  have values := kept.values fun h => h.2.2 (.inl rfl)
  have defaults := kept.defaults fun h => h.2.2 (.inr rfl)
  generalize (exec (drawNode (drawElement turns levels) n order) c).2.scope = t at values defaults
  obtain ⟨inner, globals, ds⟩ := t
  obtain ⟨rfl, rfl⟩ := values
  cases defaults
  rfl

end Inert

section Walked

open Siblings

variable {turns levels : Nat}

/-- A walked tree leaves two runs in agreement, if elements that take all their content do. -/
theorem twin_first_of_walked (h : ∀ {el children}, (Role.ofName el.name).walks → (∀ n ∈ children, Node.Walked n) →
      ∀ order, Twin (drawElement turns levels el children order)) {n : Node} (hn : n.Walked) (order : Order) :
    Calm (drawNode (drawElement turns levels) n order) ∧
      Twin (first (drawNode (drawElement turns levels)) n order) := by
  have of_twin : ∀ {n : Node}, (∀ order, Twin (drawNode (drawElement turns levels) n order)) →
      Calm (drawNode (drawElement turns levels) n order) ∧
        Twin (first (drawNode (drawElement turns levels)) n order) :=
    fun h => ⟨(h order).calm, twin_first h order⟩
  cases hn with
  | leaf l => exact of_twin fun _ => (same_drawLeaf l).twin
  | target inert target =>
    have calm : ∀ order, Calm (drawNode (drawElement turns levels) n order) :=
      fun order => meets_inert turns levels inert order True
    exact ⟨calm order, twin_first_of_target target calm (scope_inert turns levels inert) order⟩
  | unread role => exact of_twin fun order => twin_drawNode (twin_drawElement_of_unread role order)
  | walks role content => exact of_twin fun order => twin_drawNode (h role content order)

/-- An element that takes all its content before it waits leaves two runs in agreement. -/
theorem twin_drawElement_of_walks {el : Element} {children : List Node} (hrole : (Role.ofName el.name).walks)
    (hc : ∀ n ∈ children, n.Walked) (order : Order) : Twin (drawElement turns levels el children order) := by
  induction levels generalizing el children order with
  | zero => exact (Still.throw _).twin
  | succ levels ih =>
    have inside : ∀ order, Twin (draw (drawNode (drawElement turns levels)) children order) :=
      twin_draw hc (fun n order hn => (twin_first_of_walked ih hn order).1)
        fun n order hn => (twin_first_of_walked ih hn order).2
    unfold drawElement
    simp only
    cases hname : Role.ofName el.name with
    | branch => exact Control.twin_branch inside el order
    | gradient => exact .after (.prepare el order) fun el => Gradient.twin_draw inside el
    | container drawn => exact twin_drawContainer inside drawn el order
    | loop | each | assign | config | defaults | templates | reuse | textBox | person | pipeline | verbatim | shape =>
      rw [hname] at hrole
      cases hrole

end Walked

open Siblings in
/-- If a walked node is drawn in one context and waits in another that differs only in what is resolved, and nothing is
drawn from the dice, its followers see the same variables, the same defaults and the same target of `^`. -/
theorem interruption_unseen (turns levels : Nat) {n : Node} (hn : n.Walked) (order : Order) {c d c' d' : Context}
    {s t : Sibling} (h : c.Agrees d)
    (hc : exec (first (drawNode (drawElement turns levels)) n order) c = (.ok s, c'))
    (hd : exec (first (drawNode (drawElement turns levels)) n order) d = (.ok t, d'))
    (dice : c'.dice.drawn = c.dice.drawn) (dice' : d'.dice.drawn = d.dice.drawn) :
    d'.scope = c'.scope ∧ d'.prev = c'.prev := by
  have twin : Twin (first (drawNode (drawElement turns levels)) n order) :=
    (twin_first_of_walked twin_drawElement_of_walks hn order).2
  have undrawn : ∀ {c c' : Context} {s : Sibling},
      exec (first (drawNode (drawElement turns levels)) n order) c = (.ok s, c') →
      c'.dice.drawn = c.dice.drawn → c'.dice = c.dice := by
    intro c c' s hrun hdrawn
    have leads := twin.calm.dice c
    rw [hrun] at leads
    exact leads.antisymm ⟨leads.source.symm, Nat.le_of_eq hdrawn⟩
  have agree := twin.agrees h (by rw [hc]; trivial) (by rw [hd]; trivial) (by rw [hc]; exact undrawn hc dice)
    (by rw [hd]; exact undrawn hd dice')
  rw [hc, hd] at agree
  exact ⟨agree.scope, agree.prev⟩

/-- A place where a variable is zero, and a square is resolved or not. -/
def Context.resolving (resolved : Bool) : Context :=
  { scope := { globals := [("n", "0")] }
    registry := { byId := if resolved then [("b", ⟨{ name := "rect" }, some ⟨0, 0, 1, 1⟩⟩)] else [] } }

/-- A group with a square that may wait, and an assignment behind it. -/
def groupedAssignment : Node :=
  .element { name := "g" } [.element (.ofAttrs "rect" [("xy", "#b"), ("wh", "1")]) [],
    .element (.ofAttrs "var" [("n", "1")]) []]

/-- A loop with an assignment and a square that may wait. -/
def repeatedAssignment : Node :=
  .element (.ofAttrs "for" [("data", "a b"), ("var", "x")])
    [.element (.ofAttrs "var" [("n", "$x")]) [], .element (.ofAttrs "rect" [("xy", "#b"), ("wh", "1")]) []]

namespace Siblings

/-- What became of a node, the value of the variable, and the number of draws. -/
def summary (r : Except Failure Sibling × Context) : Option Bool × Option String × Nat :=
  (r.1.toOption.map (·.pending?.isSome), r.2.scope.var? "n", r.2.dice.drawn)

theorem of_summary {r : Except Failure Sibling × Context} {b : Bool} {v : Option String} {k : Nat}
    (h : summary r = (some b, v, k)) :
    ∃ s c, r = (.ok s, c) ∧ s.pending?.isSome = b ∧ c.scope.var? "n" = v ∧ c.dice.drawn = k := by
  obtain ⟨o, c⟩ := r
  simp only [summary, Prod.mk.injEq] at h
  obtain ⟨hs, hv, hk⟩ := h
  cases o with
  | error f => cases hs
  | ok s => exact ⟨s, c, rfl, Option.some.inj hs, hv, hk⟩

end Siblings

open Siblings in
/-- The group is drawn or waits, and the assignment is made either way. -/
theorem interruption_unseen_grouped :
    ∃ s t c d, exec (first (drawNode (drawElement 0 3)) groupedAssignment ⟨[0]⟩) (.resolving true) = (.ok s, c) ∧
      exec (first (drawNode (drawElement 0 3)) groupedAssignment ⟨[0]⟩) (.resolving false) = (.ok t, d) ∧
      s.pending?.isSome = false ∧ t.pending?.isSome = true ∧ c.scope.var? "n" = some "1" ∧
      d.scope = c.scope ∧ d.prev = c.prev := by
  have walked : groupedAssignment.Walked := by
    refine .walks (by decide) (List.forall_mem_cons.2 ⟨.target (Node.fits_element.2 ⟨?_, nofun⟩) ?_,
      List.forall_mem_cons.2 ⟨.unread ?_, nofun⟩⟩) <;> decide +kernel
  have drawn : summary (exec (first (drawNode (drawElement 0 3)) groupedAssignment ⟨[0]⟩) (.resolving true)) =
      (some false, some "1", 0) := by decide +kernel
  have waits : summary (exec (first (drawNode (drawElement 0 3)) groupedAssignment ⟨[0]⟩) (.resolving false)) =
      (some true, some "1", 0) := by decide +kernel
  obtain ⟨s, c, hc, hs, hn, hk⟩ := of_summary drawn
  obtain ⟨t, d, hd, ht, -, hk'⟩ := of_summary waits
  have agree : (Context.resolving true).Agrees (.resolving false) := ⟨rfl, rfl, rfl, rfl, rfl⟩
  exact ⟨s, t, c, d, hc, hd, hs, ht, hn, interruption_unseen 0 3 walked _ agree hc hd hk hk'⟩

open Siblings in
/-- The loop is drawn or interrupted in its first turn, and the assignment of its second turn is made or not. -/
theorem interruption_seen_repeated :
    ∃ s t c d, exec (first (drawNode (drawElement 0 3)) repeatedAssignment ⟨[0]⟩) (.resolving true) = (.ok s, c) ∧
      exec (first (drawNode (drawElement 0 3)) repeatedAssignment ⟨[0]⟩) (.resolving false) = (.ok t, d) ∧
      Context.resolving false = { Context.resolving true with registry := {} } ∧
      c.dice.drawn = 0 ∧ d.dice.drawn = 0 ∧ s.pending?.isSome = false ∧ t.pending?.isSome = true ∧
      c.scope.var? "n" = some "b" ∧ d.scope.var? "n" = some "a" := by
  have drawn : summary (exec (first (drawNode (drawElement 0 3)) repeatedAssignment ⟨[0]⟩) (.resolving true)) =
      (some false, some "b", 0) := by decide +kernel
  have waits : summary (exec (first (drawNode (drawElement 0 3)) repeatedAssignment ⟨[0]⟩) (.resolving false)) =
      (some true, some "a", 0) := by decide +kernel
  obtain ⟨s, c, hc, hs, hn, hk⟩ := of_summary drawn
  obtain ⟨t, d, hd, ht, hn', hk'⟩ := of_summary waits
  exact ⟨s, t, c, d, hc, hd, rfl, hk, hk', hs, ht, hn, hn'⟩

end DiagramMarkup
