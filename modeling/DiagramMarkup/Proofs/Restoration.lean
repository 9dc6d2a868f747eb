import DiagramMarkup.Proofs.Conduct
import DiagramMarkup.Proofs.Literal
import DiagramMarkup.Proofs.Passes

/-!
# What an element borrows it gives back

Drawing a node opens frames, goes deeper and makes other elements the one at hand, and it may end in a drawing, in a
deferral or in an error. However it ends, the frames, the depth and the element at hand are back.

1. Every context is under the regime that admits everything (`Regime.lax`), so what is kept there is kept anywhere.
2. A retry runs its node in the scope that the node was met in, and brings back the live one (`exec_retry`). Since the
   saved scopes are those of the first encounters, siblings are drawn as their nodes would be drawn in those scopes,
   and in no others (`exec_draw_congr`).
-/

namespace DiagramMarkup

/-! ## Every context -/

namespace Regime

/-- Everything is admitted. -/
def lax : Regime where
  tag _ := True
  attr _ := True
  options _ := True
  dice _ := True
  exhausts := True
  size := 0
  nesting := 0
  turns := 0
  tag_group := trivial
  attr_given _ _ := trivial
  options_set _ _ _ _ := trivial
  dice_expand _ _ _ := trivial
  dice_eval _ _ _ := trivial
  dice_start _ _ := trivial
  nesting_le _ := .inl trivial
  turns_le _ := .inl trivial

theorem lax_admits (el : Element) : lax.Admits el := ⟨trivial, fun _ _ => trivial⟩

theorem lax_fits (n : Node) : lax.Fits n := ⟨fun _ _ el _ => lax_admits el, .inl trivial⟩

theorem lax_holds {F : Scope → Prop} {c : Context} (h : F c.scope) : lax.Holds c.depth F c :=
  ⟨rfl, trivial, trivial, ⟨h, fun d _ => (lax_admits d).named⟩, fun _ p _ => lax_fits p.2, fun _ p _ => lax_fits p.2⟩

end Regime

open Regime

/-- Does the node hold an element that runs its content in a frame of its own? -/
def Node.framed : Node → Bool
  | .element el _ => (Role.ofName el.name).framed
  | .leaf _ => false

/-- After a node was drawn, what it borrowed of the context is back. Only the innermost frame may have got new names,
and not even that if the node opened a frame of its own. -/
structure Context.Restored (n : Node) (c d : Context) : Prop where
  frames : d.scope.depth = c.scope.depth
  depth : d.depth = c.depth
  current : d.current = c.current
  outer : d.scope.names.tail = c.scope.names.tail
  framed : n.framed → d.scope.names = c.scope.names

theorem current_drawNode (element : Element → List Node → Order → Compile Drawing) (n : Node) (order : Order)
    (c : Context) : (exec (drawNode element n order) c).2.current = c.current := by
  cases n with
  | leaf l =>
    cases l with
    | text s =>
      show (exec (do
        let t ← Compile.evaluating (← get).current "text" (·.expand s)
        return { events := [.text t] } : Compile Drawing) c).2.current = _
      rw [exec_bind_ok (exec_get c), exec_bind, Compile.exec_evaluating]
      have kept : (c.expand s).2.current = c.current := rfl
      rcases h : c.expand s with ⟨_ | t, d⟩ <;> rw [h] at kept <;> exact kept
    | _ => rfl
  | element el children =>
    obtain ⟨d, -, hrun⟩ := exec_drawNode element el children order c
    rw [hrun]
    rcases exec (element el children order) d with ⟨_ | x, e⟩ <;> rfl

theorem restored_drawNode (turns levels : Nat) (n : Node) (order : Order) (c : Context) :
    c.Restored n (exec (drawNode (drawElement turns levels) n order) c).2 := by
  have draws : lax.Draws turns levels := meets_drawElement (.inl trivial) levels
  have step : lax.Meets c.depth (lax.Within c.scope) (drawNode (drawElement turns levels) n order) fun _ => True :=
    meets_drawNode (fun _ _ _ _ _ => lax_fits n) fun el children _ => draws order (lax_fits _) (.inl trivial)
  have kept := (step c (lax_holds (.refl _))).1
  have outer := kept.scope.shape.outer
  refine ⟨?_, kept.depth, current_drawNode _ n order c, outer, fun hframed => ?_⟩
  · have := congrArg List.length outer
    simpa [Scope.length_names] using this
  · have step : lax.Meets c.depth (lax.Around c.scope) (drawNode (drawElement turns levels) n order)
        fun _ => True := by
      refine meets_drawNode (fun _ _ _ _ _ => lax_fits n) fun el children heq => ?_
      subst heq
      cases levels with
      | zero => exact .throw fun _ => trivial
      | succ levels =>
        exact (meets_drawElement (.inl trivial) levels).meets_framed (.inl trivial) (lax_fits _)
          (.inl trivial) hframed
    exact (step c (lax_holds (.refl _))).1.scope.shape.names

/-! ## Retries -/

namespace Siblings

/-- A retry runs the node in the scope and with the target of `^` that it waits with, and then the live ones are
back. -/
theorem exec_retry (step : Step) (p : Pending) (c : Context) :
    (exec (retry step p) c).2 =
      { (exec (step p.node p.order) { c with scope := p.scope, prev := p.prev }).2 with
        scope := c.scope, prev := c.prev } := by
  unfold retry
  rw [exec_bind_ok (exec_get c), exec_bind_ok (exec_modify _ c), exec_bind, Compile.exec_bracket,
    Compile.exec_attempt]
  rcases exec (step p.node p.order) { c with scope := p.scope, prev := p.prev }
    with ⟨(_ | _ | _) | x, d⟩ <;> rfl

/-- The nodes with their places, each with the context in which it is first met. -/
def encounters (step : Step) (base : Order) : List Node → Nat → Context → List (Node × Order × Context)
  | [], _, _ => []
  | n :: ns, i, c =>
    (n, base.sub i, c) :: encounters step base ns (i + 1) (exec (first step n (base.sub i)) c).2

/-- The steps do the same to a node in every context with the scope and the target of `^`. -/
def Alike (step step' : Step) (n : Node) (order : Order) (s : Scope) (prev : Option Order) : Prop :=
  ∀ d : Context, d.scope = s → d.prev = prev → exec (step' n order) d = exec (step n order) d

section Congruence

variable {step step' : Step}

/-- The steps do the same to a waiting node in the scope that it waits with. -/
def AlikeWaiting (step step' : Step) (p : Pending) : Prop := Alike step step' p.node p.order p.scope p.prev

theorem exec_first_congr {n : Node} {order : Order} {c : Context}
    (h : Alike step step' n order c.scope c.prev) :
    exec (first step' n order) c = exec (first step n order) c := by
  unfold first
  rw [exec_bind_ok (exec_get c), exec_bind_ok (exec_get c), exec_bind, exec_bind, Compile.exec_attempt,
    Compile.exec_attempt, h c rfl rfl]

theorem exec_retry_congr {p : Pending} (h : AlikeWaiting step step' p) (c : Context) :
    exec (retry step' p) c = exec (retry step p) c := by
  unfold retry
  rw [exec_bind_ok (exec_get c), exec_bind_ok (exec_modify _ c), exec_bind_ok (exec_get c),
    exec_bind_ok (exec_modify _ c), exec_bind, exec_bind, Compile.exec_bracket, Compile.exec_bracket,
    Compile.exec_attempt, Compile.exec_attempt, h _ rfl rfl]

/-- The first pass is the same, and what waits behind it waits with the scope of its encounter. -/
theorem exec_firstPass_congr {base : Order} : ∀ {ns : List Node} {i : Nat} {c : Context},
    (∀ m ∈ encounters step base ns i c, Alike step step' m.1 m.2.1 m.2.2.scope m.2.2.prev) →
    exec ((ns.zipIdx i).mapM fun p => first step' p.1 (base.sub p.2)) c =
        exec ((ns.zipIdx i).mapM fun p => first step p.1 (base.sub p.2)) c ∧
      ∀ tried d, exec ((ns.zipIdx i).mapM fun p => first step p.1 (base.sub p.2)) c = (.ok tried, d) →
        ∀ s ∈ tried, s.Waiting (AlikeWaiting step step') := by
  intro ns
  induction ns with
  | nil =>
    intro i c _
    refine ⟨rfl, fun tried d h => ?_⟩
    cases h
    exact fun _ hs => nomatch hs
  | cons n ns ih =>
    intro i c h
    obtain ⟨hn, hns⟩ := List.forall_mem_cons.1 h
    rw [List.zipIdx_cons, List.mapM_cons, List.mapM_cons, exec_bind, exec_bind, exec_first_congr hn]
    rcases hrun : exec (first step n (base.sub i)) c with ⟨e | s, d⟩
    · exact ⟨rfl, fun _ _ h => nomatch h⟩
    rw [hrun] at hns
    obtain ⟨hrest, hwait⟩ := ih hns
    simp only
    rw [exec_bind, exec_bind, hrest]
    refine ⟨rfl, fun tried e h => ?_⟩
    rcases hss : exec ((ns.zipIdx (i + 1)).mapM fun p => first step p.1 (base.sub p.2)) d with ⟨f | ss, e'⟩
    · rw [hss] at h
      cases h
    rw [hss] at h
    cases h
    obtain ⟨r, -, -, -, rfl⟩ := exec_first_eq_ok hrun
    exact List.forall_mem_cons.2 ⟨Sibling.waiting_ofAttempt (fun _ => hn) r, hwait ss _ hss⟩

/-- A later pass is the same, and what waits on has its scope still. -/
theorem exec_pass_congr : ∀ {queue : List Pending} {c : Context},
    (∀ p ∈ queue, AlikeWaiting step step' p) →
    exec (queue.mapM (retry step')) c = exec (queue.mapM (retry step)) c ∧
      ∀ tried d, exec (queue.mapM (retry step)) c = (.ok tried, d) →
        ∀ s ∈ tried, s.Waiting (AlikeWaiting step step') := by
  intro queue
  induction queue with
  | nil =>
    intro c _
    refine ⟨rfl, fun tried d h => ?_⟩
    cases h
    exact fun _ hs => nomatch hs
  | cons p queue ih =>
    intro c h
    obtain ⟨hp, hq⟩ := List.forall_mem_cons.1 h
    rw [List.mapM_cons, List.mapM_cons, exec_bind, exec_bind, exec_retry_congr hp]
    rcases hrun : exec (retry step p) c with ⟨e | s, d⟩
    · exact ⟨rfl, fun _ _ h => nomatch h⟩
    obtain ⟨hrest, hwait⟩ := ih (c := d) hq
    simp only
    rw [exec_bind, exec_bind, hrest]
    refine ⟨rfl, fun tried e h => ?_⟩
    rcases hss : exec (queue.mapM (retry step)) d with ⟨f | ss, e'⟩
    · rw [hss] at h
      cases h
    rw [hss] at h
    cases h
    obtain ⟨r, -, -, -, rfl⟩ := exec_retry_eq_ok hrun
    have alike : ∀ why, AlikeWaiting step step' { p with why := why } := fun _ => hp
    exact List.forall_mem_cons.2 ⟨Sibling.waiting_ofAttempt alike r, hwait ss _ hss⟩

theorem exec_passes_congr : ∀ {n : Nat} {chunks : List Chunk} {queue : List Pending} {c : Context},
    (∀ p ∈ queue, AlikeWaiting step step' p) →
    exec (passes step' n chunks queue) c = exec (passes step n chunks queue) c := by
  intro n
  induction n with
  | zero => exact fun _ => rfl
  | succ n ih =>
    intro chunks queue c h
    obtain ⟨hpass, hwait⟩ := exec_pass_congr (c := c) h
    unfold passes
    split
    · rfl
    rw [exec_bind, exec_bind, hpass]
    rcases hrun : exec (queue.mapM (retry step)) c with ⟨e | tried, d⟩
    · rfl
    simp only
    split
    · rfl
    · exact ih fun _ => Sibling.of_mem_pendings (hwait tried d hrun)

/-- Siblings are drawn by what the step does in the scopes, with the defaults and with the targets of `^` of the first
encounters: another step that does the same there makes the same run, whatever it does elsewhere. -/
theorem exec_draw_congr {nodes : List Node} {base : Order} {c : Context}
    (h : ∀ m ∈ encounters step base nodes 0 c, Alike step step' m.1 m.2.1 m.2.2.scope m.2.2.prev) :
    exec (draw step' nodes base) c = exec (draw step nodes base) c := by
  obtain ⟨hfirst, hwait⟩ := exec_firstPass_congr h
  show exec (nodes.zipIdx.mapM (fun p => first step' p.1 (base.sub p.2)) >>= _) c =
    exec (nodes.zipIdx.mapM (fun p => first step p.1 (base.sub p.2)) >>= _) c
  rcases hrun : exec (nodes.zipIdx.mapM fun p => first step p.1 (base.sub p.2)) c with ⟨e | tried, d⟩
  · rw [exec_bind_error hrun, exec_bind_error (hfirst.trans hrun)]
  · rw [exec_bind_ok hrun, exec_bind_ok (hfirst.trans hrun)]
    simp only
    rw [exec_bind, exec_bind, exec_passes_congr fun _ => Sibling.of_mem_pendings (hwait tried d hrun)]

end Congruence

/-- The step, run at every place in the scope and with the target of `^` of the encounter there. -/
def pinned (step : Step) (met : List (Node × Order × Context)) : Step := fun n order =>
  match met.find? (·.2.1 == order) with
  | none => step n order
  | some m => do
    modify fun c => { c with scope := m.2.2.scope, prev := m.2.2.prev }
    step n order

theorem order_of_mem_encounters {step : Step} {base : Order} {m : Node × Order × Context} {ns : List Node}
    {i : Nat} {c : Context} (h : m ∈ encounters step base ns i c) : ∃ j, i ≤ j ∧ m.2.1 = base.sub j := by
  induction ns generalizing i c with
  | nil => cases h
  | cons n ns ih =>
    rcases List.mem_cons.1 h with rfl | h
    · exact ⟨i, Nat.le_refl i, rfl⟩
    · obtain ⟨j, hj, hm⟩ := ih h
      exact ⟨j, by omega, hm⟩

/-- Places are told apart, so there is one encounter at each. -/
theorem find?_encounters {step : Step} {base : Order} {m : Node × Order × Context} {ns : List Node}
    {i : Nat} {c : Context} (h : m ∈ encounters step base ns i c) :
    (encounters step base ns i c).find? (·.2.1 == m.2.1) = some m := by
  induction ns generalizing i c with
  | nil => cases h
  | cons n ns ih =>
    rcases List.mem_cons.1 h with rfl | h
    · simp [encounters]
    · obtain ⟨j, hj, hm⟩ := order_of_mem_encounters h
      have hne : base.sub i ≠ m.2.1 := by
        rw [hm]
        intro heq
        have : (i : Int) = j := by simpa using List.append_cancel_left (congrArg Order.indices heq)
        omega
      rw [encounters, List.find?_cons_of_neg (by simpa using hne)]
      exact ih h

/-- To pin every node to the scope, the defaults and the target of `^` of its first encounter changes nothing: that is
where every node is drawn, in whichever pass. -/
theorem exec_draw_pinned (step : Step) (nodes : List Node) (base : Order) (c : Context) :
    exec (draw (pinned step (encounters step base nodes 0 c)) nodes base) c =
      exec (draw step nodes base) c := by
  refine exec_draw_congr fun m hm d hs hp => ?_
  unfold pinned
  rw [find?_encounters hm]
  simp only
  rw [exec_bind_ok (exec_modify _ d)]
  congr 1
  rw [← hs, ← hp]

end Siblings

/-- However the drawing of a node ends, the number of open frames, the nesting depth and the element at hand are back,
no outer frame has got or lost a name, and neither has the innermost if the node opened its own. A retry also leaves
the live frames, the defaults and the target of `^` as they were, and it draws its node in those of the first
encounter. -/
theorem drawNode_restores (turns levels : Nat) :
    (∀ n order (c : Context), c.Restored n (exec (drawNode (drawElement turns levels) n order) c).2) ∧
      (∀ p c, (exec (Siblings.retry (drawNode (drawElement turns levels)) p) c).2 =
        { (exec (drawNode (drawElement turns levels) p.node p.order)
            { c with scope := p.scope, prev := p.prev }).2 with
          scope := c.scope, prev := c.prev }) ∧
      ∀ nodes base c,
        exec (Siblings.draw (Siblings.pinned (drawNode (drawElement turns levels))
          (Siblings.encounters (drawNode (drawElement turns levels)) base nodes 0 c)) nodes base) c =
        exec (Siblings.draw (drawNode (drawElement turns levels)) nodes base) c :=
  ⟨restored_drawNode turns levels, Siblings.exec_retry _, Siblings.exec_draw_pinned _⟩

end DiagramMarkup
