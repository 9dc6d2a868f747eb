import DiagramMarkup.Proofs.Restoration

/-!
# Options and retries

A retry brings back the scope and the target of `^`, but not the options: what a config element within the node sets
again stays set. Where config elements stand among the siblings themselves, and not within them, this cannot happen:
they never wait, so each is taken once, in the first pass and in document order.

1. A node without config elements leaves the options as they are (`steady_drawNode`), and so does a retry of it.
2. A config element among siblings is drawn or fails for good (`final_config`), so no waiting node holds one.
3. So the options behind siblings are those behind their first pass.
-/

namespace DiagramMarkup

open Compile Regime

/-! ## Without config elements -/

/-- No element of the tree is a config element. -/
def Node.ConfigFree (n : Node) : Prop := n.Fits (·.name ≠ "config")

/-- A config element to which nothing refers. -/
def Node.IsConfig : Node → Prop
  | .element el _ => el.name = "config" ∧ isLiteralId el.id = false
  | .leaf _ => False

/-- Nothing with a config element in it can be instantiated. -/
structure Context.ConfigFree (c : Context) : Prop where
  written : ∀ p ∈ c.written, p.2.ConfigFree
  templates : ∀ p ∈ c.templates, p.2.ConfigFree

namespace Regime

/-- There are no config elements, and the options have a property. -/
def steady (P : Options → Prop) : Regime where
  tag n := n ≠ "config"
  attr _ := True
  options := P
  dice _ := True
  exhausts := True
  size := 0
  nesting := 0
  turns := 0
  tag_group := by decide
  attr_given _ _ := trivial
  options_set h _ _ _ := absurd rfl h
  dice_expand _ _ _ := trivial
  dice_eval _ _ _ := trivial
  dice_start _ _ := trivial
  nesting_le _ := .inl trivial
  turns_le _ := .inl trivial

variable {P : Options → Prop}

theorem steady_fits {n : Node} : (steady P).Fits n ↔ n.ConfigFree :=
  ⟨fun h e he el hel => (h.fits e he el hel).tag,
    fun h => ⟨fun e he el hel => ⟨h e he el hel, fun _ _ => trivial⟩, .inl trivial⟩⟩

theorem steady_holds {c : Context} (hp : P c.options) (hc : c.ConfigFree) :
    (steady P).Holds c.depth ((steady P).Within c.scope) c :=
  ⟨rfl, hp, trivial, ⟨.refl _, fun _ _ _ _ => trivial⟩, fun _ p hmem => steady_fits.2 (hc.written p hmem),
    fun _ p hmem => steady_fits.2 (hc.templates p hmem)⟩

theorem Holds.configFree {depth : Nat} {F : Scope → Prop} {c : Context}
    (h : (steady P).Holds depth F c) : c.ConfigFree :=
  ⟨fun p hp => steady_fits.1 (h.written (by decide : "reuse" ≠ "config") p hp),
    fun p hp => steady_fits.1 (h.templates (by decide : "reuse" ≠ "config") p hp)⟩

end Regime

/-- The options are these, and nothing with a config element in it can be instantiated. -/
def Context.Settled (o : Options) (c : Context) : Prop := c.options = o ∧ c.ConfigFree

variable (turns levels : Nat)

/-- A node without config elements leaves the options as they are. -/
theorem steady_drawNode {n : Node} (hn : n.ConfigFree) (order : Order) (o : Options) :
    Ensures (Context.Settled o) (drawNode (drawElement turns levels) n order) fun _ => True := by
  intro c hc
  have fits : (steady (· = o)).Fits n := steady_fits.2 hn
  have meets : (steady (· = o)).Meets c.depth ((steady (· = o)).Within c.scope)
      (drawNode (drawElement turns levels) n order) fun _ => True :=
    meets_drawNode (fun _ _ _ _ _ => fits) fun el children heq =>
      meets_drawElement (.inl trivial) levels order (heq ▸ fits) (.inl trivial)
  have kept := (meets c (steady_holds hc.1 hc.2)).1
  exact ⟨⟨kept.options, kept.configFree⟩, fun _ _ => trivial⟩

/-- A retry of a node without config elements leaves the options as they are. -/
theorem steady_retry {p : Pending} (hp : p.node.ConfigFree) (o : Options) :
    Ensures (Context.Settled o) (Siblings.retry (drawNode (drawElement turns levels)) p)
      (Sibling.Waiting (·.node.ConfigFree)) := by
  unfold Siblings.retry
  refine .bind .get fun live _ => .bind (.modify fun c hc => ⟨hc.1, hc.2.written, hc.2.templates⟩) fun _ _ => ?_
  exact .bind ((steady_drawNode turns levels hp p.order o).attempt.bracket fun c hc =>
    ⟨hc.1, hc.2.written, hc.2.templates⟩) fun r _ => .pure (Sibling.waiting_ofAttempt (fun _ => hp) r)

/-! ## Config elements among siblings -/

theorem drawElement_config {el : Element} (hname : el.name = "config") (children : List Node) (order : Order) :
    drawElement turns levels el children order = throw .exhausted ∨
      drawElement turns levels el children order = Control.config el order := by
  cases levels with
  | zero => exact .inl rfl
  | succ levels =>
    refine .inr ?_
    unfold drawElement
    rw [hname]
    rfl

/-- Nothing with a config element in it becomes a template when a config element is drawn. -/
theorem configFree_config {n : Node} (hn : n.IsConfig) (order : Order) :
    Ensures Context.ConfigFree (drawNode (drawElement turns levels) n order) fun _ => True := by
  intro c hc
  have meets : (steady fun _ => True).Meets c.depth ((steady fun _ => True).Within c.scope)
      (drawNode (drawElement turns levels) n order) fun _ => True := by
    refine meets_drawNode (fun _ el children heq hid => ?_) fun el children heq => ?_
    · rw [heq] at hn
      exact absurd hid (by simp [hn.2])
    · rw [heq] at hn
      rcases drawElement_config turns levels hn.1 children order with h | h <;> rw [h]
      · exact .throw fun _ => trivial
      · exact Control.meets_config (fun _ _ => trivial) (fun _ _ _ => trivial) (fun _ => trivial) order
  exact ⟨(meets c (steady_holds trivial hc)).1.configFree, fun _ _ => trivial⟩

/-- A config element does not wait. -/
theorem final_config {n : Node} (hn : n.IsConfig) (order : Order) :
    Fails Failure.Final (drawNode (drawElement turns levels) n order) := by
  cases n with
  | leaf l => exact hn.elim
  | element el children =>
    have config : Fails Failure.Final (Control.config el order) := by
      unfold Control.config prepare
      refine .bind (.bind .modify fun _ => .bind (fails_expandElement _) fun _ => .bind .get fun _ =>
        .bind .modify fun _ => .pure) fun el => .bind (.forM (fun p => ?_) _) fun _ => .pure
      exact .bind .get fun _ => .bind (.ofExcept (Blames.checked Failure.final_error _ _ _)) fun _ => .set
    have drawn : Fails Failure.Final (drawElement turns levels el children order) := by
      rcases drawElement_config turns levels hn.1 children order with h | h <;> rw [h]
      · exact .throw nofun
      · exact config
    have current : Fails Failure.Final (withCurrent el do
        let d ← drawElement turns levels el children order
        if (← get).options.debug && !d.events.isEmpty then
          return { d with events := debugComment el :: d.events }
        return d) := by
      refine .bind .get fun _ => .bind .modify fun _ => fails_bracket (.bind drawn fun d => .bind .get fun _ => ?_) _
      split <;> exact .pure
    unfold drawNode
    simp only
    split
    · exact .bind .modify fun _ => current
    · exact current

/-! ## Siblings -/

namespace Siblings

/-- What waits behind the first attempt at a sibling has no config element in it. -/
theorem configFree_first {n : Node} (hn : n.ConfigFree ∨ n.IsConfig) (order : Order) :
    Ensures Context.ConfigFree (first (drawNode (drawElement turns levels)) n order)
      (Sibling.Waiting (·.node.ConfigFree)) := by
  have aimed : ∀ c : Context, c.ConfigFree → (aim n order c).ConfigFree := by
    intro c hc
    unfold aim
    split
    · exact ⟨hc.written, hc.templates⟩
    · exact hc
  intro c hc
  rcases hrun : exec (drawNode (drawElement turns levels) n order) c with ⟨r, d⟩
  have hd : d.ConfigFree := by
    rcases hn with hn | hn
    · have := (steady_drawNode turns levels hn order c.options c ⟨rfl, hc⟩).1.2
      rwa [hrun] at this
    · have := (configFree_config turns levels hn order c hc).1
      rwa [hrun] at this
  unfold first
  rw [exec_bind_ok (exec_get c), exec_bind, exec_attempt, hrun]
  rcases r with (w | e | _) | x
  · refine ⟨aimed d hd, fun s hs q hq => ?_⟩
    cases hs
    cases hq
    refine hn.resolve_right fun hconfig => ?_
    exact final_config turns levels hconfig order c _ (by rw [hrun]) w rfl
  · exact ⟨hd, nofun⟩
  · exact ⟨hd, nofun⟩
  · refine ⟨aimed d hd, fun s hs q hq => ?_⟩
    cases hs
    cases hq

theorem steady_passes (o : Options) : ∀ (n : Nat) (chunks : List Chunk) {queue : List Pending},
    (∀ p ∈ queue, p.node.ConfigFree) →
    Ensures (Context.Settled o) (passes (drawNode (drawElement turns levels)) n chunks queue) fun _ => True := by
  intro n
  induction n with
  | zero => exact fun _ _ _ => .pure trivial
  | succ n ih =>
    intro chunks queue hq
    unfold passes
    split
    · exact .pure trivial
    refine .bind (.mapM fun p hp => steady_retry turns levels (hq p hp) o) fun tried ht => ?_
    simp only
    split
    · exact .pure trivial
    · exact ih _ fun _ => Sibling.of_mem_pendings ht

theorem configFree_encounters {base : Order} : ∀ {nodes : List Node} {i : Nat} {c : Context},
    (∀ n ∈ nodes, n.ConfigFree ∨ n.IsConfig) → c.ConfigFree →
    ∀ m ∈ encounters (drawNode (drawElement turns levels)) base nodes i c, m.2.2.ConfigFree := by
  intro nodes
  induction nodes with
  | nil => exact fun _ _ _ hm => nomatch hm
  | cons n nodes ih =>
    intro i c hn hc m hm
    obtain ⟨hn, hns⟩ := List.forall_mem_cons.1 hn
    rcases List.mem_cons.1 hm with rfl | hm
    · exact hc
    · exact ih hns (configFree_first turns levels hn (base.sub i) c hc).1 m hm

/-- The first attempt at a node leaves the options to the node. -/
theorem options_first (step : Step) (n : Node) (order : Order) (c : Context) :
    (exec (first step n order) c).2.options = (exec (step n order) c).2.options := by
  have aimed : ∀ d : Context, (aim n order d).options = d.options := by
    intro d
    unfold aim
    split <;> rfl
  unfold first
  rw [exec_bind_ok (exec_get c), exec_bind, exec_attempt]
  rcases exec (step n order) c with ⟨(_ | _ | _) | x, d⟩
  · exact aimed d
  · rfl
  · rfl
  · exact aimed d

end Siblings

open Siblings in
/-- If config elements stand among the siblings and not within them, every config element is taken once and in document
order: an encounter with any other node leaves the options as they are, what waits behind the first pass can be retried
without an effect on them, and so they are, behind all passes, what they were behind the first. -/
theorem options_siblings {nodes : List Node} (hn : ∀ n ∈ nodes, n.ConfigFree ∨ n.IsConfig) (base : Order)
    {c : Context} (hc : c.ConfigFree) :
    (∀ m ∈ encounters (drawNode (drawElement turns levels)) base nodes 0 c, m.1.ConfigFree →
      (exec (first (drawNode (drawElement turns levels)) m.1 m.2.1) m.2.2).2.options = m.2.2.options) ∧
    ∀ tried d, exec (nodes.zipIdx.mapM fun p => first (drawNode (drawElement turns levels)) p.1 (base.sub p.2)) c =
        (.ok tried, d) →
      (∀ p ∈ tried.filterMap Sibling.pending?, ∀ e : Context, e.ConfigFree →
        (exec (retry (drawNode (drawElement turns levels)) p) e).2.options = e.options) ∧
      (exec (draw (drawNode (drawElement turns levels)) nodes base) c).2.options = d.options := by
  refine ⟨fun m hm hfree => ?_, fun tried d hrun => ?_⟩
  · rw [options_first]
    exact (steady_drawNode turns levels hfree m.2.1 _ m.2.2
      ⟨rfl, configFree_encounters turns levels hn hc m hm⟩).1.1
  · have pass : Ensures Context.ConfigFree (nodes.zipIdx.mapM fun p =>
        first (drawNode (drawElement turns levels)) p.1 (base.sub p.2))
        fun tried => ∀ s ∈ tried, s.Waiting (·.node.ConfigFree) :=
      .mapM fun p hp => configFree_first turns levels (hn p.1 (List.fst_mem_of_mem_zipIdx hp)) (base.sub p.2)
    have pass := pass c hc
    rw [hrun] at pass
    have waiting : ∀ p ∈ tried.filterMap Sibling.pending?, p.node.ConfigFree :=
      fun p => Sibling.of_mem_pendings (pass.2 tried rfl)
    refine ⟨fun p hp e he => (steady_retry turns levels (waiting p hp) _ e ⟨rfl, he⟩).1.1, ?_⟩
    show (exec (nodes.zipIdx.mapM (fun p => first (drawNode (drawElement turns levels)) p.1 (base.sub p.2)) >>= _)
      c).2.options = _
    rw [exec_bind_ok hrun]
    have passed := (steady_passes turns levels d.options (tried.filterMap Sibling.pending?).length
      (tried.filterMap Sibling.chunk?) waiting d ⟨rfl, pass.1⟩).1.1
    simp only
    rw [exec_bind]
    split <;> rename_i hpasses <;> rw [hpasses] at passed <;> exact passed

/-- A square that waits for the next, with a config element between them. -/
def configBetween : List Node :=
  [.element (.ofAttrs "rect" [("xy", "#b"), ("wh", "1")]) [], .element { name := "config" } [],
    .element (.ofAttrs "rect" [("id", "b"), ("xy", "1 2"), ("wh", "1")]) []]

open Siblings in
theorem options_siblings_configBetween :
    ∃ tried d, exec (configBetween.zipIdx.mapM fun p => first (drawNode (drawElement 0 2)) p.1 (Order.sub ⟨[0]⟩ p.2))
        (.new {}) = (.ok tried, d) ∧ (tried.filterMap Sibling.pending?).length = 1 ∧
      (exec (draw (drawNode (drawElement 0 2)) configBetween ⟨[0]⟩) (.new {})).2.options = d.options := by
  have one : (exec (configBetween.zipIdx.mapM fun p => first (drawNode (drawElement 0 2)) p.1
      (Order.sub ⟨[0]⟩ p.2)) (.new {})).1.toOption.map (fun r => (r.filterMap Sibling.pending?).length) = some 1 := by
    decide +kernel
  have apart : ∀ n ∈ configBetween, n.ConfigFree ∨ n.IsConfig := by
    simp only [configBetween, List.mem_cons, List.not_mem_nil, or_false]
    rintro n (rfl | rfl | rfl)
    · exact .inl (Node.fits_element.2 ⟨by decide +kernel, nofun⟩)
    · exact .inr ⟨rfl, by decide⟩
    · exact .inl (Node.fits_element.2 ⟨by decide +kernel, nofun⟩)
  have taken := (options_siblings 0 2 apart ⟨[0]⟩ (c := .new {}) ⟨nofun, nofun⟩).2
  rcases h : exec (configBetween.zipIdx.mapM fun p => first (drawNode (drawElement 0 2)) p.1
    (Order.sub ⟨[0]⟩ p.2)) (.new {}) with ⟨r, d⟩
  rw [h] at one taken
  cases r with
  | error f => cases one
  | ok tried => exact ⟨tried, d, h, Option.some.inj one, (taken tried d rfl).2⟩

/-- A group that waits for the square behind it. There is a config element in the group and one between them. -/
def configWithin : List Node :=
  [.element { name := "g" }
      [.element (.ofAttrs "config" [("border", "1")]) [], .element (.ofAttrs "rect" [("xy", "#b"), ("wh", "1")]) []],
    .element (.ofAttrs "config" [("border", "9")]) [],
    .element (.ofAttrs "rect" [("id", "b"), ("xy", "0 0"), ("wh", "1")]) []]

/-- How many siblings wait behind the first pass, the border then, and the border behind each retry. -/
def retriedBorders (nodes : List Node) : Option (Nat × Float × List Float) :=
  let step := drawNode (drawElement 0 3)
  match exec (nodes.zipIdx.mapM fun p => Siblings.first step p.1 (Order.sub ⟨[0]⟩ p.2)) (.new {}) with
  | (.ok tried, d) =>
    let queue := tried.filterMap Sibling.pending?
    some (queue.length, d.options.border, queue.map fun p => (exec (Siblings.retry step p) d).2.options.border)
  | (.error _, _) => none

/-- The retry of the group takes the config element in it a second time, and its border stays. -/
theorem options_siblings_configWithin :
    retriedBorders configWithin = some (1, 9, [1]) ∧
      (exec (Siblings.draw (drawNode (drawElement 0 3)) configWithin ⟨[0]⟩) (.new {})).2.options.border = 1 := by
  constructor <;> decide +kernel

end DiagramMarkup
