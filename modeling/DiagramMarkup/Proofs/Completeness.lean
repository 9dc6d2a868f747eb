import DiagramMarkup.Proofs.Calls
import DiagramMarkup.Proofs.Failures
import DiagramMarkup.Proofs.OrderIndependence
import DiagramMarkup.Proofs.Plans

/-!
# Which documents are settled

In a document of nested groups and literal shapes, only references and nesting decide what is settled: drawing it goes
like trying its plan, unless there is a hard error.

1. A call draws a shape if the references of its plan are known, and waits otherwise (`mirrors_shape`).
2. A run over siblings sweeps like the plans of the siblings (`Siblings.settle_of_draw`), so a group is drawn as its
   plan is tried (`mirrors_drawContainer`).
3. So a document without cycles and unknown references stalls exactly if the sweeps over its plans end too early
   (`stalls_iff_blocked`), which happens (`Zigzag.blocked`).
-/

namespace DiagramMarkup

open Element Compile

/-! ## Documents as plans -/

/-- The reference that names an element. -/
def Element.ref? (el : Element) : Option String := if el.id = "" then none else some ("#" ++ el.id)

namespace Node

mutual

/-- The plan of a node. -/
def plan : Node → Plan
  | .leaf _ => .shape none []
  | .element el children =>
    match Role.ofName el.name with
    | .container _ => .group el.ref? (planAll children)
    | _ => .shape el.ref? (Figure.references el)

/-- The plans of several nodes. -/
def planAll : List Node → List Plan
  | [] => []
  | n :: ns => plan n :: planAll ns

end

theorem planAll_eq (ns : List Node) : planAll ns = ns.map plan := by
  induction ns with
  | nil => rfl
  | cons n ns ih => rw [planAll, ih, List.map_cons]

/-- The node is a literal shape without content, a literal group of such nodes, or literal text between them. -/
inductive Plain : Node → Prop
  | leaf {l : Leaf} (hl : isPlain l.chars) : Plain (.leaf l)
  | shape {el : Element} (hel : el.Literal) (hrole : Role.ofName el.name = .shape) : Plain (.element el [])
  | group {el : Element} {children : List Node} {drawn : Bool} (hel : el.Literal)
    (hrole : Role.ofName el.name = .container drawn) (h : ∀ n ∈ children, Plain n) :
    Plain (.element el children)

end Node

/-! ## Steps that go like tries -/

/-- The references that are answered in the context are those that are known. -/
def Context.Knows (c : Context) (known : Known) : Prop :=
  ∀ id, id ≠ "" → ((c.recorded? id).isSome ↔ "#" ++ id ∈ known)

theorem Context.Knows.of_core {c d : Context} {known : Known} (h : c.Knows known) (hd : d.core = c.core) :
    d.Knows known := by
  intro id hid
  rw [recorded?_of_core hd]
  exact h id hid

/-- A run goes like a try: it has a result if the try settles, it waits if the try does not, and the context knows what
is known afterwards. Otherwise it fails for good. -/
inductive Mirrored {β : Type} (c : Context) (r : Bool × Known) : Except Failure β × Context → Prop
  | done {x : β} {d : Context} (hr : r.1 = true) (hs : d.scope = c.scope) (hk : d.Knows r.2) :
    Mirrored c r (.ok x, d)
  | waits {v : Deferral} {d : Context} (hr : r.1 = false) (hs : d.scope = c.scope) (hk : d.Knows r.2) :
    Mirrored c r (.error (.deferred v), d)
  | fails {f : Failure} {d : Context} (hf : f.Final) : Mirrored c r (.error f, d)

/-- The step goes like the try, wherever no defaults are in force. -/
def Mirrors {β : Type} (m : Compile β) (t : Try) : Prop :=
  ∀ c known, c.scope.defaults = [] → c.Knows known → Mirrored c (t known) (exec m c)

/-- An attempt does not fail for good. -/
theorem Mirrored.of_attempt {β : Type} {c e : Context} {r : Bool × Known} {x : Except Deferral β}
    (h : Mirrored c r (x.mapError .deferred, e)) : e.scope = c.scope ∧ e.Knows r.2 ∧ r.1 = x.isOk := by
  cases x with
  | ok a =>
    cases h with
    | done hr hs hk => exact ⟨hs, hk, hr⟩
  | error v =>
    cases h with
    | waits hr hs hk => exact ⟨hs, hk, hr⟩
    | fails hf => exact absurd rfl (hf v)

namespace Siblings

section Sweeps

variable {step : Step} {f : Node → Try} {scope : Scope}

/-- A node is tried, and it is left if the try does not settle it. -/
def Tries (scope : Scope) (m : Compile Sibling) (n : Node) (t : Try) : Prop :=
  ∀ c known, c.scope = scope → c.Knows known → ∀ s d, exec m c = (.ok s, d) →
    d.scope = scope ∧ d.Knows (t known).2 ∧
    s.pending?.toList.map Pending.node = (if (t known).1 then [] else [n]) ∧
    ∀ p ∈ s.pending?, p.scope = scope

theorem tries_of_attempt {n : Node} {t : Bool} {order : Order} {wait : Deferral → Pending}
    {r : Except Deferral Drawing} (ht : t = r.isOk) (hnode : ∀ why, (wait why).node = n)
    (hwait : ∀ why, (wait why).scope = scope) :
    (Sibling.ofAttempt order wait r).pending?.toList.map Pending.node = (if t then [] else [n]) ∧
      ∀ p ∈ (Sibling.ofAttempt order wait r).pending?, p.scope = scope := by
  subst ht
  cases r with
  | ok x => exact ⟨rfl, nofun⟩
  | error why =>
    refine ⟨congrArg (fun n => [n]) (hnode why), ?_⟩
    rintro p ⟨⟩
    exact hwait why

variable (hscope : scope.defaults = [])

include hscope

theorem tries_first {n : Node} {order : Order} (h : Mirrors (step n order) (f n)) :
    Tries scope (first step n order) n (f n) := by
  intro c known hc hk s d hrun
  obtain ⟨r, e, hstep, rfl, rfl⟩ := exec_first_eq_ok hrun
  have hmirror := h c known (by rw [hc, hscope]) hk
  rw [hstep] at hmirror
  obtain ⟨hs, hke, hr⟩ := hmirror.of_attempt
  refine ⟨by rw [scope_aim, hs, hc], hke.of_core (core_aim n order e), tries_of_attempt hr ?_ ?_⟩
  · exact fun _ => rfl
  · exact fun _ => hc

theorem tries_retry {p : Pending} (hp : p.scope = scope) (h : Mirrors (step p.node p.order) (f p.node)) :
    Tries scope (retry step p) p.node (f p.node) := by
  intro c known hc hk s d hrun
  obtain ⟨r, e, hstep, rfl, rfl⟩ := exec_retry_eq_ok hrun
  have hmirror := h { c with scope := p.scope, prev := p.prev } known (by rw [hp, hscope]) hk
  rw [hstep] at hmirror
  obtain ⟨-, hke, hr⟩ := hmirror.of_attempt
  refine ⟨hc, hke, tries_of_attempt hr ?_ ?_⟩
  · exact fun _ => rfl
  · exact fun _ => hp

omit hscope in
/-- Tries one after the other go like a sweep. -/
theorem sweep_of_tries {α : Type} {run : α → Compile Sibling} {g : α → Node} {xs : List α}
    (h : ∀ x ∈ xs, Tries scope (run x) (g x) (f (g x))) {c d : Context} {known : Known}
    (hc : c.scope = scope) (hk : c.Knows known) {ss : List Sibling}
    (hrun : exec (xs.mapM run) c = (.ok ss, d)) :
    d.scope = scope ∧ d.Knows (sweep f (xs.map g) known).2 ∧
      (ss.filterMap Sibling.pending?).map Pending.node = (sweep f (xs.map g) known).1 ∧
      ∀ p ∈ ss.filterMap Sibling.pending?, p.scope = scope := by
  induction xs generalizing c known ss with
  | nil =>
    cases hrun
    exact ⟨hc, hk, rfl, by simp⟩
  | cons x xs ih =>
    obtain ⟨hx, hxs⟩ := List.forall_mem_cons.1 h
    rw [exec_mapM_cons] at hrun
    obtain ⟨s, e, hs, hrun⟩ := exec_bind_eq_ok hrun
    obtain ⟨rest, e', hrest, hrun⟩ := exec_bind_eq_ok hrun
    cases hrun
    obtain ⟨he, hke, hleft, hpending⟩ := hx c known hc hk s e hs
    obtain ⟨hd, hkd, hlefts, hpendings⟩ := ih hxs he hke hrest
    have hcons : (s :: rest).filterMap Sibling.pending? =
        s.pending?.toList ++ rest.filterMap Sibling.pending? := by
      cases hp : s.pending? <;> simp [hp]
    rw [hcons]
    refine ⟨hd, hkd, ?_, List.forall_mem_append.2 ⟨?_, hpendings⟩⟩
    · rw [List.map_append, hleft, hlefts]
      simp only [List.map_cons, sweep]
      split <;> rfl
    · simpa using hpending

/-- Further passes go like further sweeps. -/
theorem sweeps_of_passes (n : Nat) {chunks : List Chunk} {queue : List Pending} {c d : Context} {known : Known}
    (hqueue : ∀ p ∈ queue, p.scope = scope)
    (hstep : ∀ n ∈ queue.map Pending.node, ∀ order, Mirrors (step n order) (f n)) (hc : c.scope = scope)
    (hk : c.Knows known) {r : List Chunk × List Pending}
    (hrun : exec (passes step n chunks queue) c = (.ok r, d)) :
    d.scope = scope ∧ d.Knows (sweeps f n (queue.map Pending.node) known).2 ∧
      r.2.map Pending.node = (sweeps f n (queue.map Pending.node) known).1 := by
  induction n generalizing chunks queue c known with
  | zero =>
    cases hrun
    exact ⟨hc, hk, rfl⟩
  | succ n ih =>
    unfold passes at hrun
    simp only [sweeps, List.isEmpty_map]
    split at hrun
    · next hempty =>
      cases hrun
      rw [if_pos hempty]
      exact ⟨hc, hk, rfl⟩
    next hempty =>
    rw [if_neg hempty]
    obtain ⟨tried, e, htried, hrun⟩ := exec_bind_eq_ok hrun
    have htries : ∀ p ∈ queue, Tries scope (retry step p) p.node (f p.node) := fun p hp =>
      tries_retry hscope (hqueue p hp) (hstep _ (List.mem_map_of_mem hp) p.order)
    obtain ⟨he, hke, hleft, hscopes⟩ := sweep_of_tries htries hc hk htried
    have hlength : (tried.filterMap Sibling.pending?).length =
        (sweep f (queue.map Pending.node) known).1.length := by rw [← hleft, List.length_map]
    simp only [hlength] at hrun
    rw [List.length_map]
    split at hrun
    · next hsame =>
      cases hrun
      rw [if_pos hsame]
      exact ⟨he, hke, hleft⟩
    · next hsame =>
      rw [if_neg hsame, ← hleft]
      refine ih hscopes (fun n hn => hstep n ?_) he hke hrun
      rw [hleft] at hn
      exact (sweep_sublist _ known).subset hn

omit hscope in
/-- A run over siblings goes like sweeps over them. -/
theorem settle_of_draw {nodes : List Node} {base : Order} {c d : Context} {known : Known}
    (hstep : ∀ n ∈ nodes, ∀ order, Mirrors (step n order) (f n)) (hc : c.scope.defaults = []) (hk : c.Knows known)
    {x : Drawing} {stalled : List Deferral} (hrun : exec (draw step nodes base) c = (.ok (x, stalled), d)) :
    d.scope = c.scope ∧ d.Knows (settle f nodes known).2 ∧
      stalled.length = (settle f nodes known).1.length := by
  unfold draw at hrun
  obtain ⟨tried, e, htried, hrun⟩ := exec_bind_eq_ok hrun
  obtain ⟨r, e', hpasses, hrun⟩ := exec_bind_eq_ok hrun
  cases hrun
  have hfirst : ∀ p ∈ nodes.zipIdx, Tries c.scope (first step p.1 (base.sub p.2)) p.1 (f p.1) := fun p hp =>
    tries_first hc (hstep p.1 (List.fst_mem_of_mem_zipIdx hp) _)
  obtain ⟨he, hke, hleft, hscopes⟩ := sweep_of_tries (g := Prod.fst) hfirst rfl hk htried
  rw [List.zipIdx_map_fst] at hke hleft
  have hqueue : ∀ n ∈ (tried.filterMap Sibling.pending?).map Pending.node, ∀ order,
      Mirrors (step n order) (f n) := fun n hn => hstep n ((sweep_sublist nodes known).subset (hleft ▸ hn))
  obtain ⟨hd, hkd, hleft'⟩ := sweeps_of_passes hc _ hscopes hqueue he hke hpasses
  have hlength : (tried.filterMap Sibling.pending?).length = (sweep f nodes known).1.length := by
    rw [← hleft, List.length_map]
  rw [hleft, hlength] at hkd hleft'
  refine ⟨hd, hkd, ?_⟩
  rw [List.length_map, ← List.length_map (f := Pending.node), hleft']
  rfl

end Sweeps

end Siblings

/-! ## Shapes and groups -/

theorem hash_inj {s t : String} : "#" ++ s = "#" ++ t ↔ s = t := by
  rw [← String.toList_inj, String.toList_append, String.toList_append, List.append_cancel_left_eq,
    String.toList_inj]

/-- What is registered becomes known. -/
theorem Context.Knows.register {c d : Context} {known : Known} (h : c.Knows known) {el fl : Element}
    {box : Option (Box Float)} (hid : fl.id = el.id) (hd : d.registry = c.registry.register fl box) :
    d.Knows (el.ref?.toList ++ known) := by
  intro id hne
  have hknown := h id hne
  unfold recorded? at hknown ⊢
  rw [hd]
  unfold Registry.register Element.ref?
  by_cases hself : el.id = ""
  · simpa [hid, hself] using hknown
  by_cases heq : id = el.id
  · simp [hid, heq, hself]
  · simpa [hid, hself, List.lookup_cons, beq_false_of_ne heq, hash_inj, heq] using hknown

/-- A literal shape is settled by what is known. -/
theorem Context.Knows.view {c : Context} {known : Known} (h : c.Knows known) {el : Element} (hel : el.Literal)
    (o : Options) :
    ((∃ s, Figure.view o c.boxOf el = .ok s) → (Figure.references el).all known.contains = true) ∧
    (Waits (Figure.view o c.boxOf el) → (Figure.references el).all known.contains = false) := by
  constructor
  · rintro ⟨s, hs⟩
    rw [List.all_eq_true]
    intro t ht
    obtain ⟨b, hb⟩ := (Figure.view_eq_ok hs).2 t ht
    obtain ⟨id, e, hid, rfl, he⟩ := boxOf_eq_ok (hel.references_ne t ht) hb
    simpa using (h id hid).1 (by rw [he]; rfl)
  · intro hw
    obtain ⟨t, ht, hw⟩ := Figure.waits_view hw
    obtain ⟨id, hid, rfl, hnone⟩ := waits_boxOf (hel.references_ne t ht) hw
    have hnot : "#" ++ id ∉ known := fun hmem => by
      have := (h id hid).2 hmem
      rw [hnone] at this
      cases this
    rw [List.all_eq_false]
    exact ⟨_, ht, by simpa using hnot⟩

/-- A call for a shape goes like trying its plan. -/
theorem mirrors_shape {el : Element} (hel : el.Literal) (hrole : Role.ofName el.name = .shape)
    (turns levels : Nat) (order : Order) :
    Mirrors (drawNode (drawElement turns (levels + 1)) (.element el []) order)
      (Plan.shape el.ref? (Figure.references el)).attempt := by
  intro c known hc hk
  have hdrawn := drawn_drawNode hel hrole hc turns levels order
  obtain ⟨hok, hwaits⟩ := hk.view hel c.options
  rw [Figure.settle_placed] at hdrawn
  change Drawn el c _ (Figure.Settled.placed order <$> Figure.view c.options c.boxOf el) _ at hdrawn
  generalize exec (drawNode (drawElement turns (levels + 1)) (.element el []) order) c = run at hdrawn ⊢
  obtain ⟨r, e⟩ := run
  unfold Plan.attempt
  cases hv : Figure.view c.options c.boxOf el with
  | ok s =>
    rw [hv] at hdrawn
    change Drawn el c e (.ok (s.placed order)) r at hdrawn
    rw [if_pos (hok ⟨s, hv⟩)]
    have hid : (s.placed order).element.id = el.id := (Figure.view_eq_ok hv).1
    cases hdrawn with
    | settled _ hcore =>
      rw [Context.record_eq] at hcore
      have hregistry : e.registry = c.registry.register (s.placed order).element s.box :=
        (congrArg Context.registry hcore :)
      exact .done rfl (congrArg Context.scope hcore :) (hk.register hid hregistry)
  | error g =>
    rw [hv] at hdrawn hwaits
    change Drawn el c e (.error g) r at hdrawn
    cases hdrawn with
    | waits v w hcore =>
      rw [hwaits ⟨v, rfl⟩]
      exact .waits rfl (congrArg Context.scope hcore :) (hk.of_core hcore)
    | fails hf hg => exact .fails hg

/-- The content of a group goes like sweeps, and it fails only for good. -/
structure Inside.Mirrors (inside : Inside) (children : List Node) (f : Node → Try) : Prop where
  settle : ∀ {order c d known x stalled}, c.scope.defaults = [] → c.Knows known →
    exec (inside children order) c = (.ok (x, stalled), d) →
    d.scope = c.scope ∧ d.Knows (settle f children known).2 ∧
      stalled.length = (DiagramMarkup.settle f children known).1.length
  fails : ∀ order, Fails Failure.Final (inside children order)

/-- A try of a group. -/
def groupTry (el : Element) (children : List Node) (f : Node → Try) : Try := fun known =>
  if (settle f children known).1.isEmpty then (true, el.ref?.toList ++ (settle f children known).2)
  else (false, (settle f children known).2)

/-- The content of a group in its frame goes like sweeps over it, and so does the group. -/
theorem mirrored_withFrame {inside : Inside} {children : List Node} {f : Node → Try}
    (h : inside.Mirrors children f) (el : Element) (vars : Frame) (order : Order) {c : Context} {known : Known}
    (hc : c.scope.defaults = []) (hk : c.Knows known) :
    Mirrored c ((settle f children known).1.isEmpty, (settle f children known).2)
      (exec (withFrame vars (inside.of el children order)) c) := by
  unfold withFrame
  rw [exec_bind, exec_update]
  cases hpush : c.pushFrame vars with
  | error g => exact .fails (c.blames_pushFrame Failure.final_error vars g hpush)
  | ok c₁ =>
  obtain rfl := Context.pushFrame_eq_ok hpush
  simp only [exec_bracket]
  unfold Inside.of
  rcases hrun : exec (inside children order) { c with scope := c.scope.push vars } with ⟨g | ⟨x, stalled⟩, d⟩
  · rw [exec_bind_error hrun]
    exact .fails (h.fails order _ _ (by rw [hrun]))
  obtain ⟨hs, hkd, hlength⟩ := h.settle (c := { c with scope := c.scope.push vars }) hc hk hrun
  have hpop : d.popFrame.scope = c.scope := by
    show d.scope.pop = c.scope
    rw [hs]
    rfl
  rw [exec_bind_ok hrun]
  cases stalled with
  | nil => exact .done (by simpa using hlength.symm) hpop hkd
  | cons v stalled =>
    refine .waits ?_ hpop hkd
    cases hleft : (settle f children known).1 with
    | nil => simp [hleft] at hlength
    | cons n left => rfl

theorem id_rotated {el fl : Element} {box : Option (Box Float)} (h : rotated el box = .ok fl) : fl.id = el.id := by
  have hself : Figure.Alias el el := ⟨rfl, fun _ _ => rfl⟩
  obtain ⟨-, hid⟩ := (asks_rotated (Figure.stable_alias el) (by decide) (by decide) hself box).result h
  exact congrArg (·.getD "") (hid "id" (by simp))

/-- Drawing a group goes like trying its parts. -/
theorem mirrors_drawContainer {inside : Inside} {el : Element} (hel : el.Literal) {children : List Node}
    {f : Node → Try} (h : inside.Mirrors children f) (drawn : Bool) (order : Order) :
    Mirrors (drawContainer inside drawn el children order) (groupTry el children f) := by
  intro c known hc hk
  obtain ⟨c₁, hprep, hcore⟩ := exec_prepare hel hc order
  have hc₁ : c₁.scope = c.scope := (congrArg Context.scope hcore :)
  unfold drawContainer
  rw [exec_bind_ok hprep]
  unfold withDepth
  rw [exec_bind, exec_update]
  cases henter : c₁.enter (some (placed order el.spread)) with
  | error g => exact .fails (c₁.blames_enter Failure.final_error _ g henter)
  | ok c₂ =>
  obtain rfl := Context.enter_eq_ok henter
  simp only [exec_bracket]
  have hmirror := mirrored_withFrame h (placed order el.spread) (placed order el.spread).attrs.entries
    (placed order el.spread).order (c := { c₁ with depth := c₁.depth + 1 }) (by rw [hc₁, hc])
    (hk.of_core (d := c₁) hcore)
  generalize hrun : exec (withFrame (placed order el.spread).attrs.entries
    (inside.of (placed order el.spread) children (placed order el.spread).order))
    { c₁ with depth := c₁.depth + 1 } = run at hmirror
  unfold groupTry
  cases hmirror with
  | fails hf =>
    rw [exec_bind_error hrun]
    exact .fails hf
  | @waits v d hr hs hkd =>
    rw [exec_bind_error hrun, if_neg (ne_true_of_eq_false hr)]
    exact .waits rfl (hs.trans hc₁) hkd
  | @done x d hr hs hkd =>
    rw [exec_bind_ok hrun, if_pos hr]
    cases hrot : rotated (placed order el.spread) x.box with
    | error g =>
      rw [exec_bind_error (exec_ofExcept _ _)]
      exact .fails (blames_rotated Failure.final_error _ _ _ hrot)
    | ok fl =>
      rw [exec_bind_ok (exec_ofExcept _ _), exec_bind_ok (exec_register _ _ _), exec_bind_ok (exec_observe _ _)]
      have hid : fl.id = el.id := (id_rotated hrot).trans (congrArg (·.getD "") (get?_spread el "id"))
      exact .done rfl (hs.trans hc₁) (hkd.register hid rfl)

/-! ## Documents -/

theorem Context.expand_of_isPlain {s : String} (h : isPlain s) (c : Context) : c.expand s = (.ok s, c) := by
  have hs : Expr.hasTemplate s = false := by simpa using (Bool.and_eq_true_iff.1 h).1
  unfold expand runExpr Expr.expand
  rw [hs]
  rfl

/-- Literal text is drawn as it is. -/
theorem mirrors_leaf {l : Leaf} (hl : isPlain l.chars) : Mirrors (drawLeaf l) (Plan.shape none []).attempt := by
  intro c known _ hk
  cases l with
  | text s =>
    unfold drawLeaf
    simp only
    rw [exec_bind_ok (exec_get c), exec_bind, exec_evaluating, Context.expand_of_isPlain (s := s) hl]
    exact .done rfl rfl hk
  | cdata s => exact .done rfl rfl hk
  | comment s => exact .done rfl rfl hk
  | procInst target s => exact .done rfl rfl hk

/-- A node goes like its element. -/
theorem mirrors_drawNode {element : Element → List Node → Order → Compile Drawing} {el : Element}
    {children : List Node} {order : Order} {t : Try} (h : Mirrors (element el children order) t) :
    Mirrors (drawNode element (.element el children) order) t := by
  intro c known hc hk
  obtain ⟨d, hd, hrun⟩ := exec_drawNode element el children order c
  have hscope : d.scope = c.scope := (congrArg Context.scope hd :)
  have hmirror := h d known (by rw [hscope, hc]) (hk.of_core hd)
  rw [hrun]
  generalize exec (element el children order) d = run at hmirror ⊢
  cases hmirror with
  | done hr hs hke => exact .done hr (hs.trans hscope) hke
  | waits hr hs hke => exact .waits hr (hs.trans hscope) hke
  | fails hf => exact .fails hf

/-- A plain node is drawn as its plan is tried. -/
theorem Node.Plain.mirrors {n : Node} (h : n.Plain) (turns levels : Nat) (order : Order) :
    Mirrors (drawNode (drawElement turns levels) n order) n.plan.attempt := by
  induction levels generalizing n order with
  | zero =>
    cases h with
    | leaf hl => exact mirrors_leaf hl
    | shape => exact mirrors_drawNode fun _ _ _ _ => .fails nofun
    | group => exact mirrors_drawNode fun _ _ _ _ => .fails nofun
  | succ levels ih =>
    cases h with
    | leaf hl => exact mirrors_leaf hl
    | @shape el hel hrole =>
      have hplan : (Node.element el []).plan = .shape el.ref? (Figure.references el) := by
        unfold plan
        rw [hrole]
      rw [hplan]
      exact mirrors_shape hel hrole turns levels order
    | @group el children drawn hel hrole hchildren =>
      have hgroup : (Node.element el children).plan = .group el.ref? (children.map plan) := by
        rw [plan, hrole, planAll_eq]
      have hplan : (Node.element el children).plan.attempt = groupTry el children fun n => n.plan.attempt := by
        funext known
        unfold groupTry
        rw [hgroup, Plan.attempt_group, settle_map, List.isEmpty_map]
      have hinside : Inside.Mirrors (Siblings.draw (drawNode (drawElement turns levels))) children
          fun n => n.plan.attempt :=
        ⟨fun hc hk hrun => Siblings.settle_of_draw (fun n hn order => ih (hchildren n hn) order) hc hk hrun,
          fun order => Siblings.fails_draw _ _ _⟩
      rw [hplan]
      refine mirrors_drawNode ?_
      simp only [drawElement, hrole]
      exact mirrors_drawContainer hel hinside drawn order

/-- The content of the document is drawn without a hard error, but some of it waits in vain. -/
def Stalls (o : Options) (chance : Chance) (evs : List Event) : Prop :=
  ∃ ns outer el x stalled c, Node.ofEvents evs = .ok ns ∧ Outermost.ofNodes? ns = some outer ∧
    exec (Root.draw (.ofDocument o ns) outer.root outer.content) (.new o chance) = (.ok (el, x, stalled), c) ∧
    stalled ≠ []

/-- In a run over a plain document, as much is left as sweeps over the plans leave. -/
theorem length_stalled {o : Options} {chance : Chance} {b : Bounds} {root el : Element} {content : List Node}
    (hplain : ∀ n ∈ content, n.Plain) {x : Drawing} {stalled : List Deferral} {c : Context}
    (h : exec (Root.draw b root content) (.new o chance) = (.ok (el, x, stalled), c)) :
    stalled.length = (settle Plan.attempt (Node.planAll content) []).1.length := by
  obtain ⟨d, hd, hinside, -⟩ := Root.exec_draw_eq_ok h
  have hknows : d.Knows [] := fun id _ => by simp [hd.recorded?]
  obtain ⟨-, -, hlength⟩ := Siblings.settle_of_draw (f := fun n => n.plan.attempt)
    (fun n hn order => (hplain n hn).mirrors b.turns b.levels order) hd.defaults hknows hinside
  rw [hlength, Node.planAll_eq, settle_map, List.length_map]

section Documents

variable {o : Options} {chance : Chance} {evs : List Event} {ns : List Node} {outer : Outermost}
  (hns : Node.ofEvents evs = .ok ns) (houter : Outermost.ofNodes? ns = some outer)
  (hplain : ∀ n ∈ outer.content, n.Plain)

include hns houter hplain

theorem stalls_iff {el : Element} {x : Drawing} {stalled : List Deferral} {c : Context}
    (h : exec (Root.draw (.ofDocument o ns) outer.root outer.content) (.new o chance) = (.ok (el, x, stalled), c)) :
    Stalls o chance evs ↔ (settle Plan.attempt (Node.planAll outer.content) []).1 ≠ [] := by
  have hleft : stalled ≠ [] ↔ (settle Plan.attempt (Node.planAll outer.content) []).1 ≠ [] := by
    rw [← List.length_pos_iff, ← List.length_pos_iff, length_stalled hplain h]
  rw [← hleft]
  constructor
  · rintro ⟨ns', outer', el', x', stalled', c', hns', houter', h', hne⟩
    obtain rfl : ns = ns' := Except.ok.inj (hns.symm.trans hns')
    obtain rfl : outer = outer' := Option.some.inj (houter.symm.trans houter')
    rw [h] at h'
    cases h'
    exact hne
  · exact fun hne => ⟨ns, outer, el, x, stalled, c, hns, houter, h, hne⟩

/-- A plain document without cycles and unknown references stalls only if a sweep over its plans settles a part of a
group, but no whole plan. Then it does stall, unless there is a hard error. It never stalls if siblings do not lean on
each other in a cycle. -/
theorem stalls_iff_blocked (hacyclic : Plan.Acyclic (Plan.Waits (Node.planAll outer.content)))
    (hanswered : Plan.Answered (Node.planAll outer.content)) :
    (Stalls o chance evs → Plan.Blocked (Node.planAll outer.content)) ∧
    (Plan.Blocked (Node.planAll outer.content) →
      Stalls o chance evs ∨ ∃ f c, f.Final ∧
        exec (Root.draw (.ofDocument o ns) outer.root outer.content) (.new o chance) = (.error f, c)) ∧
    (Plan.Layered (Node.planAll outer.content) → ¬ Stalls o chance evs) := by
  have hiff := Plan.settle_ne_nil_iff hacyclic hanswered
  have hstalls : Stalls o chance evs → (settle Plan.attempt (Node.planAll outer.content) []).1 ≠ [] := by
    intro h
    obtain ⟨ns', outer', el, x, stalled, c, hns', houter', hrun, -⟩ := id h
    obtain rfl : ns = ns' := Except.ok.inj (hns.symm.trans hns')
    obtain rfl : outer = outer' := Option.some.inj (houter.symm.trans houter')
    exact (stalls_iff hns houter hplain hrun).1 h
  refine ⟨fun h => hiff.1 (hstalls h), fun h => ?_, fun h hs => ?_⟩
  · rcases hrun : exec (Root.draw (.ofDocument o ns) outer.root outer.content) (.new o chance) with ⟨f | ⟨el, x, stalled⟩, c⟩
    · exact .inr ⟨f, c, Root.fails_draw _ _ _ _ _ (by rw [hrun]), rfl⟩
    · exact .inl ((stalls_iff hns houter hplain hrun).2 (hiff.2 h))
  · exact hstalls hs (Plan.settle_of_layered hacyclic hanswered h)

end Documents

/-! ## A document that stalls too early -/

namespace Zigzag

/-- The first group. -/
def left : List Element := [square "a" "#c", square "b" "#d"]

/-- The second group. -/
def right : List Element := [square "c" "1 2", square "d" "#a", square "e" "#b"]

/-- Two groups of squares. The references lead to and fro between them, but never back to where they started. -/
def content : List Node :=
  [.element (.ofAttrs "g" [("id", "g1")]) (childless left), .element (.ofAttrs "g" [("id", "g2")]) (childless right)]

/-- The groups in a document. -/
def document : List Node := [.element { name := "svg" } content]

/-- The document taken apart. -/
def outer : Outermost := ⟨[], { name := "svg" }, content, []⟩

/-- How many of the squares and groups must be settled before one of them. -/
def rank (p : Plan) : Nat := (["#c", "#a", "#d", "#b", "#e", "#g1", "#g2"].idxOf? (p.self.getD "")).getD 0

theorem plain : ∀ n ∈ content, n.Plain := by
  have squares : ∀ el ∈ left ++ right, (Node.element el []).Plain := by
    have hattrs : ∀ el ∈ left ++ right, ∀ p ∈ el.attrs.entries, isPlain p.2 := by decide +kernel
    have hclasses : ∀ el ∈ left ++ right, ∀ s ∈ el.classes, isPlain s := by decide +kernel
    have hrole : ∀ el ∈ left ++ right, Role.ofName el.name = .shape := by decide +kernel
    exact fun el hel => .shape ⟨hattrs el hel, hclasses el hel⟩ (hrole el hel)
  have group : ∀ (id : String) (els : List Element), isPlain id → els ⊆ left ++ right →
      (Node.element (.ofAttrs "g" [("id", id)]) (childless els)).Plain := by
    intro id els hid hels
    refine .group ⟨?_, ?_⟩ rfl fun n hn => ?_
    · intro p hp
      rw [List.mem_singleton.1 hp]
      exact hid
    · exact nofun
    · obtain ⟨el, hel, rfl⟩ := List.mem_map.1 hn
      exact squares el (hels hel)
  intro n hn
  simp only [content, List.mem_cons, List.not_mem_nil, or_false] at hn
  rcases hn with rfl | rfl
  · exact group "g1" left (by decide +kernel) (List.subset_append_left _ _)
  · exact group "g2" right (by decide +kernel) (List.subset_append_right _ _)

theorem acyclic : Plan.Acyclic (Plan.Waits (Node.planAll content)) := by
  have hless : ∀ p ∈ Plan.insideAll (Node.planAll content), ∀ q ∈ Plan.insideAll (Node.planAll content),
      ((∃ t ∈ p.refs, q.self = some t) ∨ q.self ∈ p.parts.map Plan.self) → rank q < rank p := by
    decide +kernel
  have hwaits : ∀ {p q}, Plan.Waits (Node.planAll content) p q → rank q < rank p :=
    fun h => hless _ h.1 _ h.2.1 (h.2.2.imp_right List.mem_map_of_mem)
  have hrank : ∀ {p q}, Relation.TransGen (Plan.Waits (Node.planAll content)) p q → rank q < rank p := by
    intro p q h
    induction h with
    | single h => exact hwaits h
    | tail _ h ih => exact (hwaits h).trans ih
  exact fun p h => absurd (hrank h) (lt_irrefl _)

theorem answered : Plan.Answered (Node.planAll content) := by
  unfold Plan.Answered
  decide +kernel

theorem ofEvents_document : Node.ofEvents (Node.eventsAll document) = .ok document :=
  (Node.nests_eventsAll _).ofEvents_eq

theorem exec_document : ∃ el x stalled c, stalled ≠ [] ∧
    exec (Root.draw (.ofDocument {} document) outer.root outer.content) (.new {}) = (.ok (el, x, stalled), c) := by
  have hleft : (exec (Root.draw (.ofDocument {} document) outer.root outer.content) (.new {})).1.toOption.map
      (fun r => r.2.2.isEmpty) = some false := by decide +kernel
  rcases hrun : exec (Root.draw (.ofDocument {} document) outer.root outer.content) (.new {}) with
    ⟨f | ⟨el, x, stalled⟩, c⟩ <;> rw [hrun] at hleft
  · cases hleft
  · refine ⟨el, x, stalled, c, ?_, rfl⟩
    rintro rfl
    cases hleft

/-- The groups stall because a sweep settles a square of the second group, but neither group. -/
theorem blocked : Plan.Blocked (Node.planAll content) ∧ Stalls {} {} (Node.eventsAll document) := by
  obtain ⟨el, x, stalled, c, hne, hrun⟩ := exec_document
  have hstalls : Stalls {} {} (Node.eventsAll document) :=
    ⟨document, outer, el, x, stalled, c, ofEvents_document, rfl, hrun, hne⟩
  exact ⟨(stalls_iff_blocked ofEvents_document rfl plain acyclic answered).1 hstalls, hstalls⟩

/-- No square or group waits for itself, every reference names a square, and still the document has an error of
something that waits in vain. -/
theorem stalled_without_cycle :
    Plan.Acyclic (Plan.Waits (Node.planAll content)) ∧ Plan.Answered (Node.planAll content) ∧
    ∃ el x stalled c e es,
      exec (Root.draw (.ofDocument {} document) outer.root outer.content) (.new {}) = (.ok (el, x, stalled), c) ∧
      c.unresolved stalled = e :: es ∧ compileNodes {} document = .error (.document e es) := by
  obtain ⟨el, x, stalled, c, hne, hrun⟩ := exec_document
  obtain ⟨e, es, he, herror⟩ := compileNodes_of_stalled (rfl : Outermost.ofNodes? document = some outer) hrun hne
  exact ⟨acyclic, answered, el, x, stalled, c, e, es, hrun, he, herror⟩

end Zigzag

end DiagramMarkup
