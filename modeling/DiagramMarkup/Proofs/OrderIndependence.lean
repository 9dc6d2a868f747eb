import DiagramMarkup.Proofs.Calls
import DiagramMarkup.Proofs.Extents
import DiagramMarkup.Proofs.WellFormed

/-!
# The order of shapes

A document of literal shapes means the same in whatever order the shapes stand. Let one run over the shapes end without a
hard error.

1. In a run over the same shapes in another order, every call finds at most what the first run resolved, with the same
   boxes (`succeeds_shape`). So no call fails for good, since it would have failed in the first run.
2. By the same argument the other way round, both runs resolve the same (`draw_perm`).
3. The names and classes that are noted are then the same too, so the styles are, and so is what every shape draws.
4. The box of everything drawn is the same as well, and with it the root (`compile_perm`).
-/

namespace DiagramMarkup

open Element

/-! ## Runs that have a result -/

namespace Siblings

section Total

variable {I : Context → Prop} {step : Step} {nodes : List Node}

/-- The invariant says nothing about `^`, and of the scope only what holds of all scopes of the run. -/
structure Steady (I : Context → Prop) : Prop where
  aim : ∀ {c : Context} (n : Node) (order : Order), I c → I (aim n order c)
  scope : ∀ {c d : Context} (prev : Option Order), I c → I d → I { c with scope := d.scope, prev := prev }

/-- The node is one of those to draw, and the scope in which it waits is one of the run. -/
def Queueable (I : Context → Prop) (nodes : List Node) (p : Pending) : Prop :=
  p.node ∈ nodes ∧ ∃ d, I d ∧ p.scope = d.scope

variable (hI : Steady I) (hstep : ∀ n ∈ nodes, ∀ order,
  Succeeds I (Compile.attempt (step n order)) fun _ => True)

include hI hstep

theorem succeeds_first {n : Node} (hn : n ∈ nodes) (order : Order) :
    Succeeds I (first step n order) fun s => ∀ p, s.pending? = some p → Queueable I nodes p := by
  intro c hc
  obtain ⟨r, d, hrun, hd, -⟩ := hstep n hn order c hc
  refine ⟨.ofAttempt order (fun why => ⟨n, order, c.scope, c.prev, why⟩) r, aim n order d, ?_,
    hI.aim n order hd, fun p hp => ?_⟩
  · unfold first
    rw [exec_bind_ok (exec_get c), exec_bind_ok hrun, exec_bind_ok (exec_modify _ d)]
    rfl
  · cases r with
    | ok x => cases hp
    | error why =>
      cases hp
      exact ⟨hn, c, hc, rfl⟩

theorem succeeds_retry {p : Pending} (hp : Queueable I nodes p) :
    Succeeds I (retry step p) fun s => ∀ q, s.pending? = some q → Queueable I nodes q := by
  obtain ⟨hn, e, he, hscope⟩ := hp
  intro c hc
  obtain ⟨r, d, hrun, hd, -⟩ := hstep p.node hn p.order { c with scope := p.scope, prev := p.prev }
    (hscope ▸ hI.scope p.prev hc he)
  refine ⟨.ofAttempt p.order (fun why => { p with why := why }) r,
    { d with scope := c.scope, prev := c.prev }, ?_, hI.scope c.prev hd hc, fun q hq => ?_⟩
  · unfold retry
    rw [exec_bind_ok (exec_get c), exec_bind_ok (exec_modify _ c)]
    have hbracket := Compile.exec_bracket (Compile.attempt (step p.node p.order))
      (fun c' => { c' with scope := c.scope, prev := c.prev }) { c with scope := p.scope, prev := p.prev }
    rw [hrun] at hbracket
    rw [exec_bind_ok hbracket]
    rfl
  · cases r with
    | ok x => cases hq
    | error why =>
      cases hq
      exact ⟨hn, e, he, hscope⟩

theorem succeeds_passes (n : Nat) : ∀ (chunks : List Chunk) {queue : List Pending},
    (∀ p ∈ queue, Queueable I nodes p) → Succeeds I (passes step n chunks queue) fun _ => True := by
  induction n with
  | zero => exact fun _ _ _ => .pure trivial
  | succ n ih =>
    intro chunks queue hq
    unfold passes
    split
    · exact .pure trivial
    refine .bind (.mapM fun p hp => succeeds_retry hI hstep (hq p hp)) fun tried htried => ?_
    simp only
    split
    · exact .pure trivial
    · refine ih _ fun p hp => ?_
      obtain ⟨s, hs, hsp⟩ := List.mem_filterMap.1 hp
      exact htried s hs p hsp

/-- If no call fails for good, neither does the run. -/
theorem succeeds_draw (base : Order) : Succeeds I (draw step nodes base) fun _ => True := by
  have hfirst : ∀ p ∈ nodes.zipIdx, Succeeds I (first step p.1 (base.sub p.2))
      fun s => ∀ q, s.pending? = some q → Queueable I nodes q := by
    intro p hp
    exact succeeds_first hI hstep (List.fst_mem_of_mem_zipIdx hp) _
  unfold draw
  refine .bind (.mapM hfirst) fun tried htried => ?_
  refine .bind (succeeds_passes hI hstep _ _ fun p hp => ?_) fun _ _ => .pure trivial
  obtain ⟨s, hs, hsp⟩ := List.mem_filterMap.1 hp
  exact htried s hs p hsp

end Total

end Siblings

/-! ## Shapes in another order -/

theorem LiteralShapes.perm {els els' : List Element} (h : LiteralShapes els) (hp : els.Perm els') :
    LiteralShapes els' := by
  refine ⟨fun el hel => h.literal el (hp.mem_iff.2 hel), fun el hel => h.shape el (hp.mem_iff.2 hel), ?_⟩
  exact hp.pairwise h.ids fun {a b} hab hb heq => hab (heq ▸ hb) heq.symm

/-- The context has an answer for each of the shapes: what is resolved in it settles the shape, which is resolved as
well if it has an identifier, or the shape waits. -/
def Context.Answers (d : Context) (o : Options) (els : List Element) : Prop :=
  ∀ el ∈ els, (∃ s, Figure.view o d.boxOf el = .ok s ∧
    (el.id ≠ "" → ∃ e, d.recorded? el.id = some e ∧ e.box = s.box)) ∨ Waits (Figure.view o d.boxOf el)

/-- A context of a run with these options that knows at most what another context does. -/
structure Context.Trails (o : Options) (d c : Context) : Prop where
  options : c.options = o
  defaults : c.scope.defaults = []
  within : c.Within d

namespace Context

variable {o : Options} {c d e : Context}

theorem Trails.of_core (h : Trails o d c) (hcore : e.core = c.core) : Trails o d e where
  options := (congrArg Context.options hcore :).trans h.options
  defaults := (congrArg (fun c : Context => c.scope.defaults) hcore :).trans h.defaults
  within := (Within.of_core hcore.symm).trans h.within

/-- Nothing is learned from a shape that is resolved in the other context with the same box. -/
theorem Trails.record {s : Figure.Settled} (h : Trails o d c)
    (hs : s.element.id ≠ "" → ∃ x, d.recorded? s.element.id = some x ∧ x.box = s.box) : Trails o d (c.record s) where
  options := by
    rw [record_eq]
    exact h.options
  defaults := by
    rw [record_eq]
    exact h.defaults
  within := by
    intro id x hx
    by_cases heq : s.element.id ≠ "" ∧ id = s.element.id
    · obtain ⟨hne, rfl⟩ := heq
      rw [recorded?_record_self _ hne] at hx
      cases hx
      exact hs hne
    · rw [recorded?_record_of_ne _ fun hne heq' => heq ⟨hne, heq'⟩] at hx
      exact h.within id x hx

end Context

namespace Siblings

section Perm

variable {els : List Element} (hels : LiteralShapes els) {o : Options} {d : Context} (hd : d.Answers o els)
  {base : Order} {turns levels : Nat}

theorem steady_trails (o : Options) (d : Context) : Steady (Context.Trails o d) :=
  ⟨fun n order h => h.of_core (core_aim n order _), fun _ hc he => ⟨hc.options, he.defaults, hc.within⟩⟩

include hels hd

/-- A call that knows at most what the context does finds nothing else, and does not fail for good. -/
theorem succeeds_shape {el : Element} (hel : el ∈ els) (order : Order) :
    Succeeds (Context.Trails o d)
      (Compile.attempt (drawNode (drawElement turns (levels + 1)) (.element el []) order)) fun _ => True := by
  intro c hc
  have hlit := hels.literal el hel
  have hdrawn := drawn_drawNode hlit (hels.shape el hel) hc.defaults turns levels order
  have hbelow : Below (Figure.view o c.boxOf el) (Figure.view o d.boxOf el) :=
    Figure.below_view fun t ht => Context.below_boxOf hc.within (hlit.references_ne t ht)
  rw [Figure.settle_placed, hc.options] at hdrawn
  change Drawn el c _ (Figure.Settled.placed order <$> Figure.view o c.boxOf el) _ at hdrawn
  rw [Compile.exec_attempt]
  generalize exec (drawNode (drawElement turns (levels + 1)) (.element el []) order) c = run at hdrawn ⊢
  obtain ⟨r, e⟩ := run
  cases hv : Figure.view o c.boxOf el with
  | ok s =>
    rw [hv] at hdrawn
    change Drawn el c e (.ok (s.placed order)) r at hdrawn
    have hview := hbelow.eq_ok hv
    have hentry : el.id ≠ "" → ∃ x, d.recorded? el.id = some x ∧ x.box = s.box := by
      rcases hd el hel with ⟨s', hs', hentry⟩ | ⟨w, hw⟩
      · obtain rfl : s' = s := Except.ok.inj (hs'.symm.trans hview)
        exact hentry
      · rw [hw] at hview
        cases hview
    have hid : (s.placed order).element.id = el.id := (Figure.view_eq_ok hv).1
    cases hdrawn with
    | settled _ hcore => exact ⟨_, e, rfl, (hc.record (by rwa [hid])).of_core hcore, trivial⟩
  | error f =>
    rw [hv] at hdrawn hbelow
    change Drawn el c e (.error f) r at hdrawn
    cases hdrawn with
    | waits v w hcore => exact ⟨_, e, rfl, hc.of_core hcore, trivial⟩
    | fails hf hg =>
      -- The same failure would have ended the other run.
      rcases hd el hel with ⟨s, hs, -⟩ | ⟨w, hw⟩
      · rw [hs] at hbelow
        cases hbelow
        exact absurd rfl (hf _)
      · obtain ⟨v, hv⟩ := hbelow.waits_of_waits ⟨w, hw⟩
        cases hv
        exact absurd rfl (hf v)

omit hd in
/-- A run over shapes leaves an answer for each of them. -/
theorem Trace.Runs.answers {t : Trace} {c : Context} {left : List Nat}
    (h : t.Runs (drawNode (drawElement turns (levels + 1))) (childless els) base c left d)
    (hc : c.scope.defaults = []) (hempty : ∀ id, c.recorded? id = none) : d.Answers c.options els := by
  intro el hel
  obtain ⟨i, hi⟩ := List.mem_iff_getElem?.1 hel
  obtain ⟨hsettled, hwaits⟩ := h.settled_or_waits hels hc hempty hi
  by_cases hl : i ∈ left
  · exact .inr (hwaits hl)
  · obtain ⟨s, hs, -, hentry⟩ := hsettled hl
    exact .inl ⟨s, hs, hentry⟩

omit hels hd in
/-- If a run over shapes ends without a hard error, so does every run over the shapes in another order, and it resolves
nothing else. -/
theorem draw_perm {els' : List Element} (hels : LiteralShapes els) (hp : els.Perm els') (base' : Order)
    (turns' levels' : Nat) {c c' d : Context} {x : Drawing × List Deferral}
    (hc : c.scope.defaults = []) (hempty : ∀ id, c.recorded? id = none) (hc' : c'.scope.defaults = [])
    (hempty' : ∀ id, c'.recorded? id = none) (ho : c'.options = c.options)
    (h : exec (draw (drawNode (drawElement turns (levels + 1))) (childless els) base) c = (.ok x, d)) :
    ∃ x' d', exec (draw (drawNode (drawElement turns' (levels' + 1))) (childless els') base') c' =
      (.ok x', d') ∧ d'.Within d := by
  obtain ⟨x, stalled⟩ := x
  obtain ⟨t, left, hruns, -⟩ := exists_runs h
  have hd := hruns.answers hels hc hempty
  have hd' : d.Answers c.options els' := fun el hel => hd el (hp.mem_iff.2 hel)
  have hstep : ∀ n ∈ childless els', ∀ order, Succeeds (Context.Trails c.options d)
      (Compile.attempt (drawNode (drawElement turns' (levels' + 1)) n order)) fun _ => True := by
    intro n hn order
    obtain ⟨el, hel, rfl⟩ := List.mem_map.1 hn
    exact succeeds_shape (hels.perm hp) hd' hel order
  have hstart : Context.Trails c.options d c' := ⟨ho, hc', fun id e he => by rw [hempty' id] at he; cases he⟩
  obtain ⟨x', d', hrun, hd', -⟩ := succeeds_draw (steady_trails c.options d) hstep base' c' hstart
  exact ⟨x', d', hrun, hd'.within⟩

end Perm

end Siblings

/-! ## What a run notes -/

/-- The elements of which a settled shape consists. -/
def Figure.Settled.noted (s : Figure.Settled) : List Element := s.parts ++ [s.element]

namespace Context

/-- The names and classes in the context are those of the settled shapes with the property, each once. -/
structure Notes (c : Context) (P : Figure.Settled → Prop) : Prop where
  names : ∀ n, n ∈ c.names ↔ ∃ s, P s ∧ ∃ e ∈ s.noted, e.name = n
  classes : ∀ n, n ∈ c.classes ↔ ∃ s, P s ∧ ∃ e ∈ s.noted, n ∈ e.classes
  nodupNames : c.names.Nodup
  nodupClasses : c.classes.Nodup

/-- Add a text to texts, unless it is there. -/
theorem mem_note {xs : List String} {x y : String} :
    y ∈ (if xs.contains x then xs else x :: xs) ↔ y ∈ xs ∨ y = x := by
  split
  · next h =>
    have hx : x ∈ xs := by simpa using h
    exact ⟨.inl, fun hy => hy.elim id fun heq => heq ▸ hx⟩
  · rw [List.mem_cons, or_comm]

theorem nodup_note {xs : List String} {x : String} (h : xs.Nodup) :
    (if xs.contains x then xs else x :: xs).Nodup := by
  split
  · exact h
  · next hx => exact List.nodup_cons.2 ⟨by simpa using hx, h⟩

theorem notes_classes (cs : List String) (xs : List String) (h : xs.Nodup) :
    (∀ y, y ∈ cs.foldl (fun xs x => if xs.contains x then xs else x :: xs) xs ↔ y ∈ xs ∨ y ∈ cs) ∧
      (cs.foldl (fun xs x => if xs.contains x then xs else x :: xs) xs).Nodup := by
  induction cs generalizing xs with
  | nil => simpa using h
  | cons x cs ih =>
    obtain ⟨hmem, hnodup⟩ := ih _ (nodup_note (x := x) h)
    refine ⟨fun y => ?_, hnodup⟩
    rw [List.foldl_cons, hmem, mem_note, List.mem_cons, or_assoc]

/-- Names and classes of elements are added. -/
theorem observeAll (els : List Element) (c : Context) (hn : c.names.Nodup) (hk : c.classes.Nodup) :
    (∀ n, n ∈ (els.foldl observe c).names ↔ n ∈ c.names ∨ ∃ e ∈ els, e.name = n) ∧
    (∀ n, n ∈ (els.foldl observe c).classes ↔ n ∈ c.classes ∨ ∃ e ∈ els, n ∈ e.classes) ∧
    (els.foldl observe c).names.Nodup ∧ (els.foldl observe c).classes.Nodup := by
  induction els generalizing c with
  | nil => simpa using ⟨hn, hk⟩
  | cons el els ih =>
    obtain ⟨hmem, hnodup⟩ := notes_classes el.classes c.classes hk
    obtain ⟨hnames, hclasses, hnd⟩ := ih (c.observe el) (nodup_note hn) hnodup
    refine ⟨fun n => ?_, fun n => ?_, hnd⟩
    · rw [List.foldl_cons, hnames]
      show n ∈ (if c.names.contains el.name then c.names else el.name :: c.names) ∨ _ ↔ _
      rw [mem_note, or_assoc]
      simp [eq_comm]
    · rw [List.foldl_cons, hclasses]
      show n ∈ el.classes.foldl (fun xs x => if xs.contains x then xs else x :: xs) c.classes ∨ _ ↔ _
      rw [hmem, or_assoc]
      simp

theorem Notes.congr {c : Context} {P Q : Figure.Settled → Prop} (h : c.Notes P) (hPQ : ∀ s, P s ↔ Q s) :
    c.Notes Q := by
  obtain rfl : P = Q := funext fun s => propext (hPQ s)
  exact h

theorem Notes.of_core {c d : Context} {P : Figure.Settled → Prop} (h : c.Notes P) (hd : d.core = c.core) :
    d.Notes P := by
  have hn : d.names = c.names := (congrArg Context.names hd :)
  have hk : d.classes = c.classes := (congrArg Context.classes hd :)
  exact ⟨hn ▸ h.names, hk ▸ h.classes, hn ▸ h.nodupNames, hk ▸ h.nodupClasses⟩

/-- A record notes the shape, wherever it stands. -/
theorem Notes.record {c : Context} {P : Figure.Settled → Prop} (h : c.Notes P) (s : Figure.Settled)
    (k : Order) : (c.record (s.placed k)).Notes fun s' => P s' ∨ s' = s := by
  have hfold : ∀ n, (∃ e ∈ (s.placed k).noted, e.name = n) ↔ ∃ e ∈ s.noted, e.name = n := by
    intro n
    simp [Figure.Settled.noted, Figure.Settled.placed]
  have hclass : ∀ n, (∃ e ∈ (s.placed k).noted, n ∈ e.classes) ↔ ∃ e ∈ s.noted, n ∈ e.classes := by
    intro n
    simp [Figure.Settled.noted, Figure.Settled.placed]
  obtain ⟨hnames, hclasses, hnn, hnk⟩ :=
    observeAll (s.placed k).noted c h.nodupNames h.nodupClasses
  have heq : (c.record (s.placed k)).names = ((s.placed k).noted.foldl observe c).names ∧
      (c.record (s.placed k)).classes = ((s.placed k).noted.foldl observe c).classes := by
    unfold Figure.Settled.noted
    rw [List.foldl_append]
    exact ⟨rfl, rfl⟩
  refine ⟨fun n => ?_, fun n => ?_, heq.1 ▸ hnn, heq.2 ▸ hnk⟩
  · rw [heq.1, hnames, h.names, hfold]
    simp only [or_and_right, exists_or, exists_eq_left]
  · rw [heq.2, hclasses, h.classes, hclass]
    simp only [or_and_right, exists_or, exists_eq_left]

theorem mergeSort_eq {xs ys : List String} (hx : xs.Nodup) (hy : ys.Nodup) (h : ∀ a, a ∈ xs ↔ a ∈ ys) :
    xs.mergeSort (· ≤ ·) = ys.mergeSort (· ≤ ·) := by
  have hp : xs.Perm ys := (List.perm_ext_iff_of_nodup hx hy).2 h
  have sorted : ∀ zs : List String, (zs.mergeSort (· ≤ ·)).Pairwise fun a b => decide (a ≤ b) := by
    intro zs
    refine List.pairwise_mergeSort (fun a b c hab hbc => ?_) (fun a b => ?_) zs
    · simp only [decide_eq_true_eq] at hab hbc ⊢
      exact String.le_trans hab hbc
    · simpa using String.le_total a b
  have hp' := ((List.mergeSort_perm xs (· ≤ ·)).trans hp).trans (List.mergeSort_perm ys (· ≤ ·)).symm
  refine hp'.eq_of_pairwise (fun a b _ _ hab hba => ?_) (sorted xs) (sorted ys)
  simp only [decide_eq_true_eq] at hab hba
  exact String.le_antisymm hab hba

/-- Contexts that note the same are observed in the same way. -/
theorem Notes.observed_eq {c d : Context} {P : Figure.Settled → Prop} (hc : c.Notes P) (hd : d.Notes P)
    {r r' : Element} (hname : r.name = r'.name) (hclasses : r.classes = r'.classes) :
    (c.observe r).observed = (d.observe r').observed := by
  obtain ⟨hcn, hck, hcnn, hckn⟩ := observeAll [r] c hc.nodupNames hc.nodupClasses
  obtain ⟨hdn, hdk, hdnn, hdkn⟩ := observeAll [r'] d hd.nodupNames hd.nodupClasses
  refine Prod.ext (mergeSort_eq hcnn hdnn fun n => ?_) (mergeSort_eq hckn hdkn fun n => ?_)
  · refine (hcn n).trans (Iff.trans ?_ (hdn n).symm)
    rw [hc.names, hd.names]
    simp [hname]
  · refine (hck n).trans (Iff.trans ?_ (hdk n).symm)
    rw [hc.classes, hd.classes]
    simp [hclasses]

end Context

namespace Siblings

section Noting

variable {els : List Element} (hels : LiteralShapes els) {base : Order} {turns levels : Nat}

include hels

/-- A chain notes what its calls draw. -/
theorem Chain.notes {c d : Context} {calls : List Call}
    (h : Chain (drawNode (drawElement turns (levels + 1))) (childless els) base c calls d)
    (hs : ∀ k ∈ calls, k.before.scope.defaults = []) {P : Figure.Settled → Prop} (hc : c.Notes P) :
    d.Notes fun s => P s ∨ ∃ k ∈ calls, k.drawing?.isSome ∧
      ∃ el, els[k.index]? = some el ∧ Figure.view k.before.options k.before.boxOf el = .ok s := by
  induction h generalizing P with
  | done hd => exact (hc.of_core hd).congr (by simp)
  | @call k c d calls hk hb _ ih =>
    obtain ⟨hsk, hs⟩ := List.forall_mem_cons.1 hs
    obtain ⟨el, hel, hout⟩ := hk.outcome hels hsk
    cases hout with
    | drawn s hview hr hd =>
      refine (ih hs (((hc.of_core hb).record s (base.sub k.index)).of_core hd)).congr fun s' => ?_
      have hsome : k.drawing?.isSome := by
        rw [Call.drawing?, hr]
        rfl
      rw [or_assoc, eq_comm (a := s')]
      simp only [List.mem_cons, exists_eq_or_imp, hsome, hel, true_and, Option.some.injEq,
        exists_eq_left', hview, Except.ok.injEq]
    | waits hw hr hd =>
      refine (ih hs (hc.of_core (hd.trans hb))).congr fun s' => ?_
      simp only [List.mem_cons, exists_eq_or_imp, hr, Option.isSome_none, Bool.false_eq_true, false_and,
        false_or]

/-- A run over shapes notes all shapes that are settled by what is resolved in the end. -/
theorem Trace.Runs.notes {t : Trace} {c d : Context} {left : List Nat}
    (h : t.Runs (drawNode (drawElement turns (levels + 1))) (childless els) base c left d)
    (hc : c.scope.defaults = []) (hempty : ∀ id, c.recorded? id = none)
    (hnotes : c.Notes fun _ => False) :
    d.Notes fun s => ∃ el ∈ els, Figure.view c.options d.boxOf el = .ok s := by
  obtain ⟨hchain, -, hall⟩ := h.contexts hels hc hempty
  refine (hchain.notes hels (fun k hk => (hall k hk).1) hnotes).congr fun s => ?_
  rw [false_or]
  constructor
  · rintro ⟨k, hk, -, el, hel, hview⟩
    have hmem := List.mem_of_getElem? hel
    obtain ⟨-, ho, hbefore, -⟩ := hall k hk
    rw [ho] at hview
    refine ⟨el, hmem, (Figure.below_view fun u hu => ?_).eq_ok hview⟩
    exact Context.below_boxOf hbefore ((hels.literal el hmem).references_ne u hu)
  · rintro ⟨el, hmem, hview⟩
    obtain ⟨i, hel⟩ := List.mem_iff_getElem?.1 hmem
    obtain ⟨-, hwaits⟩ := h.settled_or_waits hels hc hempty hel
    have hi : i ∉ left := by
      intro hi
      obtain ⟨w, hw⟩ := hwaits hi
      rw [hw] at hview
      cases hview
    obtain ⟨k, hk, rfl, hx, s', hview', -⟩ := h.exists_drawn hels (fun k hk => (hall k hk).1) hel hi
    obtain ⟨-, ho, hbefore, -⟩ := hall k hk
    have hsame : Figure.view c.options d.boxOf el = .ok s' := by
      rw [ho] at hview'
      refine (Figure.below_view fun u hu => ?_).eq_ok hview'
      exact Context.below_boxOf hbefore ((hels.literal el hmem).references_ne u hu)
    obtain rfl : s' = s := Except.ok.inj (hsame.symm.trans hview)
    exact ⟨k, hk, by rw [hx]; rfl, el, hel, hview'⟩

end Noting

end Siblings

/-! ## What shapes show -/

/-- The event without the place of its element. -/
def Event.unplaced : Event → Event := mapElement (placed ⟨[]⟩)

theorem Styles.apply_placed (styles : Styles) (k : Order) (el : Element) :
    styles.apply (placed k el) = placed k (styles.apply el) := by
  unfold apply
  split
  · rfl
  simp only [placed_name, placed_classes, apply_ite (placed k)]
  rfl

/-- The drawing of a shape by these answers, at the place of the document. -/
def portrait (o : Options) (refs : Position.Referrer Float) (el : Element) : Drawing :=
  match Figure.view o refs el with
  | .ok s => picture o el s
  | .error _ => ⟨[], none⟩

/-- What a shape shows by these answers and styles, apart from its place. -/
def shown (o : Options) (refs : Position.Referrer Float) (styles : Styles) (el : Element) : List Event :=
  ((portrait o refs el).events.map (Event.mapElement styles.apply)).map Event.unplaced

theorem Event.unplaced_wrap_placed (styles : Styles) (k : Order) (el : Element) (content : List Event) :
    ((wrap (placed k el) content).map (mapElement styles.apply)).map unplaced =
      ((wrap el content).map (mapElement styles.apply)).map unplaced := by
  have happly : placed ⟨[]⟩ (styles.apply (placed k el)) = placed ⟨[]⟩ (styles.apply el) := by
    rw [Styles.apply_placed]
    rfl
  unfold wrap
  split
  · simpa [mapElement, unplaced] using happly
  · simpa [mapElement, unplaced] using happly

theorem shown_placed {o : Options} {refs : Position.Referrer Float} {el : Element} {s : Figure.Settled}
    (h : Figure.view o refs el = .ok s) (k : Order) :
    (∀ styles : Styles, ((picture o el (s.placed k)).events.map (Event.mapElement styles.apply)).map
      Event.unplaced = shown o refs styles el) ∧
    (picture o el (s.placed k)).box = (portrait o refs el).box := by
  have hdrawing : ∀ styles : Styles,
      ((s.placed k).drawing.events.map (Event.mapElement styles.apply)).map Event.unplaced =
        (s.drawing.events.map (Event.mapElement styles.apply)).map Event.unplaced := by
    intro styles
    unfold Figure.Settled.drawing Figure.Settled.placed
    simp only [List.map_append, Event.unplaced_wrap_placed]
  unfold shown portrait
  rw [h]
  unfold picture
  split
  · exact ⟨fun styles => by simp only [List.map_cons, hdrawing], rfl⟩
  · exact ⟨hdrawing, rfl⟩

namespace Siblings

theorem isBlank_picture (o : Options) (el : Element) (s : Figure.Settled) :
    tidy.isBlank (picture o el s) = false := by
  have hwrap : ∃ x rest, s.drawing.events = x :: rest ∧ x.element?.isSome := by
    unfold Figure.Settled.drawing Event.wrap
    split
    · exact ⟨_, _, rfl, rfl⟩
    · exact ⟨_, _, rfl, rfl⟩
  obtain ⟨x, rest, hevents, hx⟩ := hwrap
  unfold picture tidy.isBlank
  split
  · next l heq =>
    split at heq
    · rw [hevents] at heq
      cases heq
    · rw [hevents] at heq
      cases heq
      cases hx
  · rfl

/-- Where nothing is white space, nothing is left out. -/
theorem tidy_eq_self {ds : List Drawing} (h : ∀ d ∈ ds, tidy.isBlank d = false) : tidy ds = ds := by
  fun_induction tidy ds with
  | case1 d e rest hd ih =>
    rw [h d List.mem_cons_self] at hd
    cases hd
  | case2 d e rest hd ih => rw [ih fun x hx => h x (List.mem_cons_of_mem _ hx)]
  | case3 => rfl

/-- A run over shapes that settles all of them shows each of them, in source order. -/
theorem Trace.Runs.shown {els : List Element} (hels : LiteralShapes els) {base : Order} {turns levels : Nat}
    {t : Trace} {c d : Context}
    (h : t.Runs (drawNode (drawElement turns (levels + 1))) (childless els) base c [] d)
    (hc : c.scope.defaults = []) (hempty : ∀ id, c.recorded? id = none) :
    (∀ styles : Styles, ((assemble ((drawn t.calls).map (chunkAt base))).events.map
      (Event.mapElement styles.apply)).map Event.unplaced = els.flatMap (shown c.options d.boxOf styles)) ∧
    (assemble ((drawn t.calls).map (chunkAt base))).box =
      (Drawing.concat (els.map (portrait c.options d.boxOf))).box := by
  have hdraw : ∀ i el, els[i]? = some el → ∃ s, Figure.view c.options d.boxOf el = .ok s ∧
      t.drawing i = picture c.options el (s.placed (base.sub i)) := by
    intro i el hel
    obtain ⟨s, hs, hx, -⟩ := (h.settled_or_waits hels hc hempty hel).1 (by simp)
    exact ⟨s, hs, hx⟩
  have hall : Trace.resolved (childless els).length [] = List.range els.length := by
    simp [Trace.resolved, childless]
  have hblank : ∀ x ∈ (List.range els.length).map t.drawing, tidy.isBlank x = false := by
    intro x hx
    obtain ⟨i, hi, rfl⟩ := List.mem_map.1 hx
    obtain ⟨s, -, hs⟩ := hdraw i _ (List.getElem?_eq_getElem (List.mem_range.1 hi))
    rw [hs]
    exact isBlank_picture _ _ _
  have hassemble : assemble ((drawn t.calls).map (chunkAt base)) =
      .concat ((List.range els.length).map t.drawing) := by
    unfold assemble
    rw [inOrder_eq h, hall, tidy_eq_self hblank]
  have hmap : ∀ {α : Type} (f g : Drawing → α), (∀ i el, els[i]? = some el →
      f (t.drawing i) = g (portrait c.options d.boxOf el)) →
      ((List.range els.length).map t.drawing).map f = (els.map (portrait c.options d.boxOf)).map g := by
    intro α f g hfg
    refine List.ext_getElem (by simp) fun i hi hi' => ?_
    simp only [List.length_map, List.length_range] at hi
    simpa using hfg i _ (List.getElem?_eq_getElem hi)
  rw [hassemble]
  constructor
  · intro styles
    let looks : Drawing → List Event := fun x => (x.events.map (Event.mapElement styles.apply)).map Event.unplaced
    have hshow := hmap looks looks fun i el hel => by
      obtain ⟨s, hs, hx⟩ := hdraw i el hel
      rw [hx]
      exact (shown_placed hs _).1 styles
    show ((List.flatMap Drawing.events _).map _).map _ = _
    rw [List.map_flatMap, List.map_flatMap]
    show List.flatMap looks _ = _
    rw [List.flatMap_def, hshow, ← List.flatMap_def, List.flatMap_map]
    rfl
  · refine Drawing.box_concat_perm (.of_eq ?_)
    refine hmap _ _ fun i el hel => ?_
    obtain ⟨s, hs, hx⟩ := hdraw i el hel
    rw [hx]
    exact (shown_placed hs _).2

end Siblings

/-! ## Documents -/

/-- A context in which nothing has been drawn yet. -/
structure Context.Fresh (o : Options) (c : Context) : Prop where
  options : c.options = o
  scope : c.scope = {}
  registry : c.registry = {}
  names : c.names = []
  classes : c.classes = []

namespace Context.Fresh

variable {o : Options} {c : Context} (h : c.Fresh o)

include h

theorem recorded? (id : String) : c.recorded? id = none := by
  unfold Context.recorded?
  rw [h.registry]
  rfl

theorem defaults : c.scope.defaults = [] := by rw [h.scope]

theorem notes : c.Notes fun _ => False := by
  constructor
  · simp [h.names]
  · simp [h.classes]
  · simp [h.names]
  · simp [h.classes]

end Context.Fresh

namespace Root

theorem ensures_expandElement (o : Options) (el : Element) :
    Ensures (Context.Fresh o) (Compile.expandElement el) fun _ => True := by
  have expand : ∀ (el : Element) (attr s : String),
      Ensures (Context.Fresh o) (Compile.expand el attr s) fun _ => True := by
    intro el attr s c hc
    unfold Compile.expand
    rw [Compile.exec_evaluating]
    have hfresh : (c.expand s).2.Fresh o := ⟨hc.options, hc.scope, hc.registry, hc.names, hc.classes⟩
    rcases hrun : c.expand s with ⟨_ | a, d⟩ <;> rw [hrun] at hfresh
    · exact ⟨hfresh, fun _ _ => trivial⟩
    · exact ⟨hfresh, fun _ _ => trivial⟩
  unfold Compile.expandElement
  refine .bind (.foldlM (Q := fun _ => True) (fun fl _ p _ => ?_) trivial) fun fl _ => ?_
  · exact .bind (expand _ _ _) fun _ _ => .pure trivial
  · refine .bind (.mapM (Q := fun _ => True) fun s _ => ?_) fun _ _ => .pure trivial
    exact .bind (expand _ _ _) fun _ _ => .pure trivial

/-- The root is made ready before its content is drawn, which leaves a fresh context, whatever the content is. -/
theorem exec_draw_eq_ok {o : Options} {chance : Chance} {b : Bounds} {el fl : Element} {content : List Node} {x : Drawing}
    {stalled : List Deferral} {e : Context}
    (h : exec (draw b el content) (.new o chance) = (.ok (fl, x, stalled), e)) :
    ∃ c : Context, c.Fresh o ∧ exec (drawInside b content fl.order) c = (.ok (x, stalled), e) ∧
      ∀ b content x stalled e, exec (drawInside b content fl.order) c = (.ok (x, stalled), e) →
        exec (draw b el content) (.new o chance) = (.ok (fl, x, stalled), e) := by
  have hstart : ({ (.new o chance : Context) with current := some { el with order := ⟨[0]⟩ } }).Fresh o :=
    ⟨rfl, rfl, rfl, rfl, rfl⟩
  unfold draw at h
  rw [exec_bind_ok (exec_setCurrent _ _)] at h
  obtain ⟨fl', c, hrun, h⟩ := exec_bind_eq_ok h
  rw [exec_bind_ok (exec_setCurrent _ _)] at h
  obtain ⟨⟨x', stalled'⟩, e', hinside, h⟩ := exec_bind_eq_ok h
  rw [exec_pure] at h
  cases h
  have hkeep := (ensures_expandElement o { el with order := ⟨[0]⟩ } _ hstart).1
  rw [hrun] at hkeep
  refine ⟨{ c with current := some fl }, ?_, hinside, fun b content x stalled e hinside => ?_⟩
  · exact ⟨hkeep.options, hkeep.scope, hkeep.registry, hkeep.names, hkeep.classes⟩
  · unfold draw
    rw [exec_bind_ok (exec_setCurrent _ _), exec_bind_ok hrun, exec_bind_ok (exec_setCurrent _ _),
      exec_bind_ok hinside]
    rfl

end Root

theorem Bounds.levels_ofDocument (o : Options) (ns : List Node) :
    ∃ n, (Bounds.ofDocument o ns).levels = n + 1 := by
  refine ⟨(Bounds.ofDocument o ns).levels - 1, ?_⟩
  have : 0 < (Bounds.ofDocument o ns).levels := Nat.mul_pos (by omega) (by omega)
  omega

/-! ## The order of shapes in documents -/

/-- The events are a document with these shapes, and a page around them. -/
def IsSheet (evs : List Event) (page : Outermost) (els : List Element) : Prop :=
  ∃ ns, Node.ofEvents evs = .ok ns ∧ Outermost.ofNodes? ns = some { page with content := childless els }

namespace Root

/-- The root with its styles, as it is written around the content. -/
def dressed (styles : Styles) (el : Element) (content : List Event) : Element :=
  if needsLinks content then fill (styles.apply el) "xmlns:xlink" linkNamespace else styles.apply el

theorem assemble?_eq_some {c : Context} {el : Element} {x : Drawing} {evs : List Event} :
    assemble? c el x = some evs ↔ ∃ styles,
      Styles.build? c.options (c.observe (finished c.options el x.box)).observed.1
        (c.observe (finished c.options el x.box)).observed.2 = some styles ∧
      evs = Event.wrap (dressed styles (finished c.options el x.box)
        (styles.events ++ x.events.map (Event.mapElement styles.apply)))
        (styles.events ++ x.events.map (Event.mapElement styles.apply)) := by
  refine Option.bind_eq_some_iff.trans (exists_congr fun styles => and_congr_right fun _ => ?_)
  simp only [pure, Option.some.injEq]
  exact eq_comm

theorem needsLinks_unplaced (evs : List Event) : needsLinks (evs.map Event.unplaced) = needsLinks evs := by
  unfold needsLinks
  rw [List.any_map]
  congr 1
  funext e
  cases e <;> rfl

end Root

namespace Siblings

variable {o : Options} {els els' : List Element} (hels : LiteralShapes els) {base : Order}
  {turns levels : Nat} {c d : Context} (hc : c.Fresh o) {x : Drawing}

/-- What a run that settles all shapes leaves. -/
structure Complete (o : Options) (els : List Element) (x : Drawing) (d : Context) : Prop where
  options : d.options = o
  settled : ∀ el ∈ els, ∃ s, Figure.view o d.boxOf el = .ok s
  notes : d.Notes fun s => ∃ el ∈ els, Figure.view o d.boxOf el = .ok s
  events : ∀ styles : Styles, (x.events.map (Event.mapElement styles.apply)).map Event.unplaced =
    els.flatMap (shown o d.boxOf styles)
  box : x.box = (Drawing.concat (els.map (portrait o d.boxOf))).box

/-- The run of a drawing leaves as many shapes as are listed. -/
theorem exists_runs_length {nodes : List Node} {step : Step} {stalled : List Deferral}
    (h : exec (draw step nodes base) c = (.ok (x, stalled), d)) :
    ∃ (t : Trace) (left : List Nat), t.Runs step nodes base c left d ∧
      x = assemble ((drawn t.calls).map (chunkAt base)) ∧ stalled.length = left.length := by
  obtain ⟨t, left, hruns, hx, hnone, hsome⟩ := exists_runs h
  refine ⟨t, left, hruns, hx, ?_⟩
  by_cases hl : left = []
  · simp [hl, hnone hl]
  · obtain ⟨calls, -, hleft, hstalled⟩ := hsome hl
    have hlength := congrArg List.length hstalled
    rw [← hleft]
    simpa using hlength.symm

/-- Views that agree on the shapes show the same. -/
theorem portrait_congr {els : List Element} {refs refs' : Position.Referrer Float}
    (h : ∀ el ∈ els, Figure.view o refs' el = Figure.view o refs el) :
    els.map (portrait o refs') = els.map (portrait o refs) ∧
      ∀ styles, els.flatMap (shown o refs' styles) = els.flatMap (shown o refs styles) := by
  have hportrait : ∀ el ∈ els, portrait o refs' el = portrait o refs el := by
    intro el hel
    unfold portrait
    rw [h el hel]
  refine ⟨List.map_congr_left hportrait, fun styles => List.flatMap_congr fun el hel => ?_⟩
  unfold shown
  rw [hportrait el hel]

/-- The root looks the same around the shapes in another order. -/
theorem Complete.assemble?_perm (hp : els.Perm els') {x' : Drawing} {d' : Context} (hx : Complete o els x d)
    (hx' : Complete o els' x' d')
    (hview : ∀ el ∈ els', Figure.view o d'.boxOf el = Figure.view o d.boxOf el) {el : Element}
    {evs : List Event} (h : Root.assemble? d el x = some evs) :
    ∃ (root : Element) (styles : Styles),
      evs = Event.wrap root (styles.events ++ x.events.map (Event.mapElement styles.apply)) ∧
      Root.assemble? d' el x' =
        some (Event.wrap root (styles.events ++ x'.events.map (Event.mapElement styles.apply))) := by
  obtain ⟨hportraits, hshown⟩ := portrait_congr hview
  have hbox : x'.box = x.box := by
    rw [hx'.box, hx.box, hportraits]
    refine Drawing.box_concat_perm ?_
    rw [List.map_map, List.map_map]
    exact hp.symm.map _
  have hobserved : (d'.observe (Root.finished o el x.box)).observed =
      (d.observe (Root.finished o el x.box)).observed := by
    refine Context.Notes.observed_eq (hx'.notes.congr fun s => ?_) hx.notes rfl rfl
    constructor
    · rintro ⟨fl, hfl, hs⟩
      exact ⟨fl, hp.mem_iff.2 hfl, hview fl hfl ▸ hs⟩
    · rintro ⟨fl, hfl, hs⟩
      have hfl := hp.mem_iff.1 hfl
      exact ⟨fl, hfl, (hview fl hfl).trans hs⟩
  obtain ⟨styles, hstyles, hevs⟩ := Root.assemble?_eq_some.1 h
  rw [hx.options] at hstyles hevs
  have hlinks : Root.needsLinks (styles.events ++ x.events.map (Event.mapElement styles.apply)) =
      Root.needsLinks (styles.events ++ x'.events.map (Event.mapElement styles.apply)) := by
    rw [← Root.needsLinks_unplaced, ← Root.needsLinks_unplaced (_ ++ x'.events.map _), List.map_append,
      List.map_append, hx.events, hx'.events, hshown]
    exact List.Perm.any_eq (List.Perm.append_left _ (hp.flatMap_right _))
  refine ⟨_, styles, hevs, Root.assemble?_eq_some.2 ⟨styles, ?_, ?_⟩⟩
  · rw [hx'.options, hbox, hobserved]
    exact hstyles
  · unfold Root.dressed
    rw [hx'.options, hbox, hlinks]

include hels hc

theorem complete_of_draw
    (h : exec (draw (drawNode (drawElement turns (levels + 1))) (childless els) base) c = (.ok (x, []), d)) :
    Complete o els x d := by
  obtain ⟨t, left, hruns, rfl, hlength⟩ := exists_runs_length h
  obtain rfl : left = [] := List.length_eq_zero_iff.1 hlength.symm
  obtain ⟨-, hoptions, -⟩ := hruns.contexts hels hc.defaults hc.recorded?
  obtain ⟨hevents, hbox⟩ := hruns.shown hels hc.defaults hc.recorded?
  have hnotes := hruns.notes hels hc.defaults hc.recorded? hc.notes
  rw [hc.options] at hoptions hevents hbox hnotes
  refine ⟨hoptions, fun el hel => ?_, hnotes, hevents, hbox⟩
  obtain ⟨i, hi⟩ := List.mem_iff_getElem?.1 hel
  obtain ⟨s, hs, -⟩ := (hruns.settled_or_waits hels hc.defaults hc.recorded? hi).1 (by simp)
  exact ⟨s, hc.options ▸ hs⟩

/-- If a run settles all shapes, so does a run over the shapes in another order, in the same way. -/
theorem complete_perm (hp : els.Perm els') (turns' levels' : Nat)
    (h : exec (draw (drawNode (drawElement turns (levels + 1))) (childless els) base) c = (.ok (x, []), d)) :
    ∃ x' d', exec (draw (drawNode (drawElement turns' (levels' + 1))) (childless els') base) c =
      (.ok (x', []), d') ∧ ∀ el ∈ els, Figure.view o d'.boxOf el = Figure.view o d.boxOf el := by
  obtain ⟨⟨x', stalled⟩, d', h', -⟩ := draw_perm hels hp base turns' levels' hc.defaults hc.recorded? hc.defaults hc.recorded? rfl h
  -- The run over the first order finds at most what the run over the second does, too.
  obtain ⟨y, e, hback, hwithin⟩ := draw_perm (hels.perm hp) hp.symm base turns levels hc.defaults hc.recorded? hc.defaults hc.recorded? rfl h'
  obtain rfl : d = e := congrArg Prod.snd (h.symm.trans hback)
  have hview : ∀ el ∈ els, Figure.view o d'.boxOf el = Figure.view o d.boxOf el := by
    intro el hel
    obtain ⟨s, hs⟩ := (complete_of_draw hels hc h).settled el hel
    rw [hs]
    refine (Figure.below_view fun t ht => ?_).eq_ok hs
    exact Context.below_boxOf hwithin ((hels.literal el hel).references_ne t ht)
  obtain ⟨t, left, hruns, -, hlength⟩ := exists_runs_length h'
  have hleft : left = [] := by
    refine List.eq_nil_iff_forall_not_mem.2 fun i hi => ?_
    have hlt : i < els'.length := by
      have hmem := hruns.perm_range.mem_iff.1 (List.mem_append_right _ hi)
      simpa [childless] using hmem
    have hel := List.getElem?_eq_getElem hlt
    obtain ⟨w, hw⟩ := (hruns.settled_or_waits (hels.perm hp) hc.defaults hc.recorded? hel).2 hi
    have hmem := hp.mem_iff.2 (List.getElem_mem hlt)
    obtain ⟨s, hs⟩ := (complete_of_draw hels hc h).settled _ hmem
    rw [hc.options, hview _ hmem, hs] at hw
    cases hw
  subst hleft
  obtain rfl : stalled = [] := List.length_eq_zero_iff.1 hlength
  exact ⟨x', d', h', hview⟩

end Siblings

section Compile

variable {o : Options} {chance : Chance} {evs evs' : List Event} {page : Outermost} {els els' : List Element}

/-- If a document of shapes compiles, it does so with the shapes in another order, and the output differs only in the
order of what the shapes show. -/
theorem IsSheet.perm (h : IsSheet evs page els) (h' : IsSheet evs' page els') (hels : LiteralShapes els)
    (hp : els.Perm els') {out : List Event} (hout : compile o evs chance = .ok out) :
    ∃ out', compile o evs' chance = .ok out' ∧ ∃ root styles refs content content',
      out = Node.eventsAll page.before ++ Event.wrap root (styles.events ++ content) ++
        Node.eventsAll page.behind ∧
      out' = Node.eventsAll page.before ++ Event.wrap root (styles.events ++ content') ++
        Node.eventsAll page.behind ∧
      content.map Event.unplaced = els.flatMap (shown o refs styles) ∧
      content'.map Event.unplaced = els'.flatMap (shown o refs styles) := by
  obtain ⟨ns, hns, hpage⟩ := h
  obtain ⟨ns', hns', hpage'⟩ := h'
  obtain ⟨hvalid, ms, hms, hout⟩ := compile_eq_ok.1 hout
  obtain rfl : ns = ms := Except.ok.inj (hns.symm.trans hms)
  obtain ⟨outer, el, x, d, evs, houter, hdraw, hass, rfl⟩ := compileNodes_eq_ok.1 hout
  obtain rfl := Option.some.inj (hpage.symm.trans houter)
  obtain ⟨n, hn⟩ := Bounds.levels_ofDocument o ns
  obtain ⟨n', hn'⟩ := Bounds.levels_ofDocument o ns'
  obtain ⟨c, hc, hinside, hopen⟩ := Root.exec_draw_eq_ok hdraw
  unfold drawInside at hinside
  rw [hn] at hinside
  obtain ⟨x', d', hinside', hview⟩ := Siblings.complete_perm hels hc hp (Bounds.ofDocument o ns').turns n' hinside
  have hview : ∀ fl ∈ els', Figure.view o d'.boxOf fl = Figure.view o d.boxOf fl :=
    fun fl hfl => hview fl (hp.mem_iff.2 hfl)
  have hx := Siblings.complete_of_draw hels hc hinside
  have hx' := Siblings.complete_of_draw (hels.perm hp) hc hinside'
  obtain ⟨root, styles, rfl, hass'⟩ := hx.assemble?_perm hp hx' hview hass
  rw [← hn'] at hinside'
  refine ⟨_, compile_eq_ok.2 ⟨hvalid, ns', hns', compileNodes_eq_ok.2 ⟨_, el, x', d', _, hpage',
    hopen _ _ _ _ _ hinside', hass', rfl⟩⟩, root, styles, d.boxOf, _, _, rfl, rfl, hx.events styles, ?_⟩
  rw [hx'.events]
  exact (Siblings.portrait_congr hview).2 styles

variable (o chance) in
/-- A document of literal shapes means the same in whatever order the shapes stand. Without a hard error the shapes that
are settled are the least set closed under references. The document compiles in one order if it does so in another, and
then every shape shows the same, each at its place, in the same root. -/
theorem compile_perm (h : IsSheet evs page els) (h' : IsSheet evs' page els') (hels : LiteralShapes els)
    (hp : els.Perm els') :
    (∀ ns, Node.ofEvents evs = .ok ns → ∀ el x stalled d,
      exec (Root.draw (.ofDocument o ns) page.root (childless els)) (.new o chance) = (.ok (el, x, stalled), d) →
      ∃ (c : Context) (t : Siblings.Trace) (left : List Nat),
        exec (drawInside (.ofDocument o ns) (childless els) el.order) c = (.ok (x, stalled), d) ∧
        t.Runs (drawNode (drawElement (Bounds.ofDocument o ns).turns (Bounds.ofDocument o ns).levels))
          (childless els) el.order c left d ∧
        x = Siblings.assemble ((Siblings.drawn t.calls).map (Siblings.chunkAt el.order)) ∧
        stalled.length = left.length ∧
        IsLeast { members | Closed els members } { i | i < els.length ∧ i ∉ left }) ∧
    ((∃ out, compile o evs chance = .ok out) ↔ ∃ out, compile o evs' chance = .ok out) ∧
    ∀ out out', compile o evs chance = .ok out → compile o evs' chance = .ok out' →
      ∃ root styles refs content content',
        out = Node.eventsAll page.before ++ Event.wrap root (styles.events ++ content) ++
          Node.eventsAll page.behind ∧
        out' = Node.eventsAll page.before ++ Event.wrap root (styles.events ++ content') ++
          Node.eventsAll page.behind ∧
        content.map Event.unplaced = els.flatMap (shown o refs styles) ∧
        content'.map Event.unplaced = els'.flatMap (shown o refs styles) := by
  refine ⟨fun ns hns el x stalled d hdraw => ?_, ⟨?_, ?_⟩, ?_⟩
  · obtain ⟨n, hn⟩ := Bounds.levels_ofDocument o ns
    obtain ⟨c, hc, hinside, -⟩ := Root.exec_draw_eq_ok hdraw
    obtain ⟨t, left, hruns, hx, hlength⟩ := Siblings.exists_runs_length hinside
    refine ⟨c, t, left, hinside, hruns, hx, hlength, ?_⟩
    rw [hn] at hruns
    exact hruns.isLeast hels hc.defaults hc.recorded?
  · rintro ⟨out, hout⟩
    obtain ⟨out', hout', -⟩ := h.perm h' hels hp hout
    exact ⟨out', hout'⟩
  · rintro ⟨out', hout'⟩
    obtain ⟨out, hout, -⟩ := h'.perm h (hels.perm hp) hp.symm hout'
    exact ⟨out, hout⟩
  · intro out out' hout hout'
    obtain ⟨out'', hout'', hsame⟩ := h.perm h' hels hp hout
    obtain rfl : out'' = out' := Except.ok.inj (hout''.symm.trans hout')
    exact hsame

end Compile

/-- A square at a place. -/
def square (id place : String) : Element := .ofAttrs "rect" [("id", id), ("xy", place), ("wh", "1")]

/-- A document of shapes. -/
def sheet (els : List Element) : List Event := Node.eventsAll [.element { name := "svg" } (childless els)]

theorem isSheet_sheet (els : List Element) : IsSheet (sheet els) ⟨[], { name := "svg" }, [], []⟩ els :=
  ⟨_, (Node.nests_eventsAll _).ofEvents_eq, rfl⟩

/-- A square at the place of another may stand in front of it or behind it. -/
theorem compile_perm_twoSquares :
    ∃ out out', compile {} (sheet [square "a" "#b", square "b" "1 2"]) = .ok out ∧
      compile {} (sheet [square "b" "1 2", square "a" "#b"]) = .ok out' ∧
      ∃ root styles refs content content', out = Event.wrap root (styles.events ++ content) ∧
        out' = Event.wrap root (styles.events ++ content') ∧
        content.map Event.unplaced = shown {} refs styles (square "a" "#b") ++
          shown {} refs styles (square "b" "1 2") ∧
        content'.map Event.unplaced = shown {} refs styles (square "b" "1 2") ++
          shown {} refs styles (square "a" "#b") := by
  have hels : LiteralShapes [square "a" "#b", square "b" "1 2"] := by
    refine ⟨?_, by decide +kernel, by decide +kernel⟩
    intro el hel
    simp only [List.mem_cons, List.not_mem_nil, or_false] at hel
    rcases hel with rfl | rfl
    · exact ⟨by decide +kernel, by decide +kernel⟩
    · exact ⟨by decide +kernel, by decide +kernel⟩
  obtain ⟨out, hout⟩ : ∃ out, compile {} (sheet [square "a" "#b", square "b" "1 2"]) = .ok out := by
    have hok : (compile {} (sheet [square "a" "#b", square "b" "1 2"])).isOk = true := by decide +kernel
    cases h : compile {} (sheet [square "a" "#b", square "b" "1 2"]) with
    | error e => rw [h] at hok; cases hok
    | ok out => exact ⟨out, rfl⟩
  obtain ⟨-, hiff, hsame⟩ := compile_perm {} {} (isSheet_sheet [square "a" "#b", square "b" "1 2"])
    (isSheet_sheet [square "b" "1 2", square "a" "#b"]) hels (.swap _ _ _)
  obtain ⟨out', hout'⟩ := hiff.1 ⟨out, hout⟩
  obtain ⟨root, styles, refs, content, content', rfl, rfl, hcontent, hcontent'⟩ := hsame _ _ hout hout'
  refine ⟨_, _, hout, hout', root, styles, refs, content, content', ?_, ?_, ?_, ?_⟩
  · simp [Node.eventsAll]
  · simp [Node.eventsAll]
  · simpa using hcontent
  · simpa using hcontent'

end DiagramMarkup
