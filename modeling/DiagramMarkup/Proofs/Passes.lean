import DiagramMarkup.Proofs.Hierarchy
import DiagramMarkup.Proofs.Roles

/-!
# The calls of a run over siblings

A run over siblings is a chain of calls of the step, one for every node that is tried in a pass. `Trace.Runs` says
which calls a run makes, in which contexts, and which nodes it leaves waiting.

1. A run without a hard error has a trace (`exists_runs`), and its chunks and its queue are those of the trace.
2. Successful calls and waiting nodes together are the nodes, each once (`Runs.perm_range`).
3. So sorting the chunks by place gives one drawing for every settled node, in source order (`inOrder_eq`).
-/

namespace DiagramMarkup

namespace Siblings

/-- A call of the step: for which node, in which context, with which result, and the context it left. -/
structure Call where
  index : Nat
  before : Context
  result : Except Deferral Drawing
  after : Context

/-- The drawing of a call, when it succeeded. -/
def Call.drawing? (k : Call) : Option Drawing := k.result.toOption

/-- The nodes of the calls that were deferred. -/
def waiting (calls : List Call) : List Nat :=
  (calls.filter fun k => k.drawing?.isNone).map Call.index

/-- The drawings of the calls that succeeded, with the nodes they were made for. -/
def drawn (calls : List Call) : List (Nat × Drawing) :=
  calls.filterMap fun k => k.drawing?.map (k.index, ·)

theorem drawn_append (calls more : List Call) : drawn (calls ++ more) = drawn calls ++ drawn more :=
  List.filterMap_append

section Traces

variable (step : Step) (nodes : List Node) (base : Order)

/-- The call was made: the step was run for the node, and it did not fail otherwise than by a deferral. -/
def Call.Made (k : Call) : Prop :=
  ∃ n, nodes[k.index]? = some n ∧
    exec (step n (base.sub k.index)) k.before = (k.result.mapError .deferred, k.after)

/-- The first pass from a node on: every node is tried in the context that the one before it left. -/
inductive Walk : Nat → Context → List Call → Context → Prop
  | done (c : Context) : Walk nodes.length c [] c
  | tried {k : Call} {n : Node} {calls : List Call} {d : Context} (hn : nodes[k.index]? = some n)
    (hk : k.Made step nodes base)
    (h : Walk (k.index + 1) (aim n (base.sub k.index) k.after) calls d) :
    Walk k.index k.before (k :: calls) d

variable (origin : Nat → Context)

/-- A later pass over nodes: each is tried in the scope of the context in which it was first met, and the live scope
comes back behind it. -/
inductive Pass : List Nat → Context → List Call → Context → Prop
  | done (c : Context) : Pass [] c [] c
  | tried {k : Call} {is : List Nat} {calls : List Call} {c d : Context}
    (hk : k.Made step nodes base)
    (hb : k.before = { c with scope := (origin k.index).scope, prev := (origin k.index).prev })
    (h : Pass is { k.after with scope := c.scope, prev := c.prev } calls d) :
    Pass (k.index :: is) c (k :: calls) d

/-- Later passes: until nothing waits, or a pass settles nothing. -/
inductive Rounds : List Nat → Context → List (List Call) → List Nat → Context → Prop
  | settled (c : Context) : Rounds [] c [] [] c
  | stuck {is : List Nat} {calls : List Call} {c d : Context} (hne : is ≠ [])
    (hp : Pass step nodes base origin is c calls d) (hw : waiting calls = is) :
    Rounds is c [calls] is d
  | progress {is left : List Nat} {calls : List Call} {later : List (List Call)} {c d e : Context}
    (hp : Pass step nodes base origin is c calls d) (hw : waiting calls ≠ is)
    (h : Rounds (waiting calls) d later left e) :
    Rounds is c (calls :: later) left e

end Traces

/-- The calls of a run: those of the first pass, and those of every later one. -/
structure Trace where
  first : List Call
  later : List (List Call)

namespace Trace

/-- All calls. -/
def calls (t : Trace) : List Call := t.first ++ t.later.flatten

/-- The context in which a node was first met. -/
def origin (t : Trace) (i : Nat) : Context := (t.first[i]?.map Call.before).getD default

/-- The drawings that the calls for a node gave. -/
def drawings (t : Trace) (i : Nat) : List Drawing :=
  (t.calls.filter (·.index == i)).filterMap Call.drawing?

/-- The run that makes the calls leads from one context to another, and leaves nodes waiting. -/
def Runs (step : Step) (nodes : List Node) (base : Order) (t : Trace) (c : Context) (left : List Nat)
    (d : Context) : Prop :=
  ∃ e, Walk step nodes base 0 c t.first e ∧
    Rounds step nodes base t.origin (waiting t.first) e t.later left d

end Trace

/-! ## Single attempts -/

section Attempts

variable {step : Step}

theorem exec_attempt_eq_ok {α : Type} {m : Compile α} {c d : Context} {r : Except Deferral α}
    (h : exec (Compile.attempt m) c = (.ok r, d)) : exec m c = (r.mapError .deferred, d) := by
  rw [Compile.exec_attempt] at h
  rcases hm : exec m c with ⟨(_ | _ | _) | a, e⟩ <;> rw [hm] at h <;> cases h <;> rfl

theorem exec_first_eq_ok {n : Node} {order : Order} {c d : Context} {s : Sibling}
    (h : exec (first step n order) c = (.ok s, d)) :
    ∃ r e, exec (step n order) c = (r.mapError .deferred, e) ∧ d = aim n order e ∧
      s = .ofAttempt order (fun why => ⟨n, order, c.scope, c.prev, why⟩) r := by
  unfold first at h
  rw [exec_bind_ok (exec_get c)] at h
  obtain ⟨r, e, hr, h⟩ := exec_bind_eq_ok h
  refine ⟨r, e, exec_attempt_eq_ok hr, ?_⟩
  rw [exec_bind_ok (exec_modify _ e), exec_pure] at h
  cases h
  exact ⟨rfl, rfl⟩

theorem exec_retry_eq_ok {p : Pending} {c d : Context} {s : Sibling}
    (h : exec (retry step p) c = (.ok s, d)) :
    ∃ r e, exec (step p.node p.order) { c with scope := p.scope, prev := p.prev } =
        (r.mapError .deferred, e) ∧
      d = { e with scope := c.scope, prev := c.prev } ∧
      s = .ofAttempt p.order (fun why => { p with why := why }) r := by
  unfold retry at h
  rw [exec_bind_ok (exec_get c), exec_bind_ok (exec_modify _ c)] at h
  obtain ⟨r, e, hr, h⟩ := exec_bind_eq_ok h
  rw [Compile.exec_bracket] at hr
  rcases ha : exec (Compile.attempt (step p.node p.order)) { c with scope := p.scope, prev := p.prev }
    with ⟨r', e'⟩
  rw [ha] at hr
  cases hr
  refine ⟨r, e', exec_attempt_eq_ok ha, ?_⟩
  rw [exec_pure] at h
  cases h
  exact ⟨rfl, rfl⟩

end Attempts

/-! ## From runs to traces -/

section Runs

variable (nodes : List Node) (base : Order) (origin : Nat → Context)

/-- A node as it waits: with its place, and the scope in which it was first met. -/
def pendingAt (i : Nat) (why : Deferral) : Pending :=
  ⟨nodes.getD i default, base.sub i, (origin i).scope, (origin i).prev, why⟩

/-- What a call makes of its node. -/
def Call.sibling (k : Call) : Sibling :=
  .ofAttempt (base.sub k.index) (pendingAt nodes base origin k.index) k.result

/-- The drawing of a node with its place. -/
def chunkAt (p : Nat × Drawing) : Chunk := ⟨base.sub p.1, p.2⟩

/-- The queue holds these nodes as they wait. -/
def Queued (is : List Nat) (queue : List Pending) : Prop :=
  List.Forall₂ (fun i p => p = pendingAt nodes base origin i p.why) is queue

theorem chunks_eq (calls : List Call) :
    (calls.map (Call.sibling nodes base origin)).filterMap Sibling.chunk? =
      (drawn calls).map (chunkAt base) := by
  induction calls with
  | nil => rfl
  | cons k calls ih =>
    obtain ⟨i, b, why | d, a⟩ := k
    · exact ih
    · exact congrArg (⟨base.sub i, d⟩ :: ·) ih

theorem queued_pendings (calls : List Call) :
    Queued nodes base origin (waiting calls)
      ((calls.map (Call.sibling nodes base origin)).filterMap Sibling.pending?) := by
  induction calls with
  | nil => exact .nil
  | cons k calls ih =>
    obtain ⟨i, b, why | d, a⟩ := k
    · exact .cons rfl ih
    · exact ih

variable {nodes base origin} {step : Step}

/-- The first pass is a walk. -/
theorem exists_walk {rest : List Node} : ∀ {i : Nat} {c d : Context} {tried : List Sibling},
    nodes.drop i = rest → i ≤ nodes.length →
    exec ((rest.zipIdx i).mapM fun p => first step p.1 (base.sub p.2)) c = (.ok tried, d) →
    ∃ calls, Walk step nodes base i c calls d ∧ calls.map Call.index = List.range' i rest.length ∧
      ∀ origin : Nat → Context, (∀ k ∈ calls, origin k.index = k.before) →
        tried = calls.map (Call.sibling nodes base origin) := by
  induction rest with
  | nil =>
    intro i c d tried hrest hi h
    cases h
    have : i = nodes.length := by
      have := List.drop_eq_nil_iff.1 hrest
      omega
    subst this
    exact ⟨[], .done c, rfl, fun _ _ => rfl⟩
  | cons n rest ih =>
    intro i c d tried hrest hi h
    have hn : nodes[i]? = some n := by
      rw [← List.head?_drop, hrest, List.head?_cons]
    have hlt : i < nodes.length := (List.getElem?_eq_some_iff.1 hn).1
    rw [List.zipIdx_cons, List.mapM_cons] at h
    obtain ⟨s, e, hs, h⟩ := exec_bind_eq_ok h
    obtain ⟨ss, e', hss, h⟩ := exec_bind_eq_ok h
    cases h
    obtain ⟨r, a, hr, rfl, rfl⟩ := exec_first_eq_ok hs
    have hdrop : nodes.drop (i + 1) = rest := by
      rw [← List.drop_drop, hrest, List.drop_one, List.tail_cons]
    obtain ⟨calls, hwalk, hindex, htried⟩ := ih hdrop hlt hss
    let k : Call := ⟨i, c, r, a⟩
    refine ⟨k :: calls, .tried (k := k) hn ⟨n, hn, hr⟩ hwalk, ?_, fun origin ho => ?_⟩
    · rw [List.map_cons, hindex, List.length_cons, List.range'_succ]
    · obtain ⟨hc, ho⟩ := List.forall_mem_cons.1 ho
      rw [List.map_cons, htried origin ho]
      have hget : nodes.getD i default = n := by simp [List.getD, hn]
      have hwait : pendingAt nodes base origin i = fun why => ⟨n, base.sub i, c.scope, c.prev, why⟩ := by
        funext why
        simp only [pendingAt, hget, show origin i = c from hc]
      refine congrArg (· :: _) ?_
      show _ = Sibling.ofAttempt (base.sub i) (pendingAt nodes base origin i) r
      rw [hwait]

/-- A pass over the queue is a pass over its nodes. -/
theorem exists_pass {queue : List Pending} : ∀ {is : List Nat} {c d : Context} {tried : List Sibling},
    Queued nodes base origin is queue → (∀ i ∈ is, i < nodes.length) →
    exec (queue.mapM (retry step)) c = (.ok tried, d) →
    ∃ calls, Pass step nodes base origin is c calls d ∧ calls.map Call.index = is ∧
      tried = calls.map (Call.sibling nodes base origin) := by
  induction queue with
  | nil =>
    intro is c d tried hq _ h
    cases hq
    cases h
    exact ⟨[], .done c, rfl, rfl⟩
  | cons p queue ih =>
    intro is c d tried hq hin h
    cases hq with
    | cons hp hq =>
      rename_i i is
      obtain ⟨hi, hin⟩ := List.forall_mem_cons.1 hin
      rw [List.mapM_cons] at h
      obtain ⟨s, e, hs, h⟩ := exec_bind_eq_ok h
      obtain ⟨ss, e', hss, h⟩ := exec_bind_eq_ok h
      cases h
      obtain ⟨r, a, hr, rfl, rfl⟩ := exec_retry_eq_ok hs
      obtain ⟨calls, hpass, hindex, rfl⟩ := ih hq hin hss
      have hn : nodes[i]? = some (nodes.getD i default) := by
        simp [List.getD, List.getElem?_eq_getElem hi]
      rw [hp] at hr ⊢
      let k : Call := ⟨i, { c with scope := (origin i).scope, prev := (origin i).prev }, r, a⟩
      refine ⟨k :: calls, .tried (k := k) ⟨_, hn, hr⟩ rfl hpass, ?_, rfl⟩
      rw [List.map_cons, hindex]

theorem waiting_sublist (calls : List Call) : (waiting calls).Sublist (calls.map Call.index) :=
  List.filter_sublist.map Call.index

theorem length_waiting_lt {calls : List Call} (h : waiting calls ≠ calls.map Call.index) :
    (waiting calls).length < calls.length := by
  have hs := waiting_sublist calls
  refine Nat.lt_of_le_of_ne (by simpa using hs.length_le) fun hl => h ?_
  exact hs.eq_of_length (by simpa using hl)

/-- The reasons of deferred calls. -/
def reasons (calls : List Call) : List Deferral :=
  calls.filterMap fun k => match k.result with
    | .ok _ => none
    | .error why => some why

theorem why_pendings (calls : List Call) :
    ((calls.map (Call.sibling nodes base origin)).filterMap Sibling.pending?).map Pending.why =
      reasons calls := by
  induction calls with
  | nil => rfl
  | cons k calls ih =>
    obtain ⟨i, b, why | d, a⟩ := k
    · exact congrArg (why :: ·) ih
    · exact ih

/-- The passes over the queue are rounds over its nodes; what is still queued was deferred in the last round. -/
theorem exists_rounds : ∀ {n : Nat} {chunks : List Chunk} {queue : List Pending} {is : List Nat}
    {c d : Context} {r : List Chunk × List Pending},
    Queued nodes base origin is queue → (∀ i ∈ is, i < nodes.length) → queue.length ≤ n →
    exec (passes step n chunks queue) c = (.ok r, d) →
    ∃ later left, Rounds step nodes base origin is c later left d ∧
      r.1 = chunks ++ (drawn later.flatten).map (chunkAt base) ∧
      (left = [] → r.2 = []) ∧
      (left ≠ [] → ∃ calls, later.getLast? = some calls ∧ calls.map Call.index = left ∧
        waiting calls = left ∧ r.2.map Pending.why = reasons calls) := by
  intro n
  induction n with
  | zero =>
    intro chunks queue is c d r hq _ hlen h
    have hnil : queue = [] := List.length_eq_zero_iff.1 (by omega)
    subst hnil
    cases hq
    cases h
    exact ⟨[], [], .settled c, by simp [drawn], fun _ => rfl, fun hne => absurd rfl hne⟩
  | succ n ih =>
    intro chunks queue is c d r hq hin hlen h
    unfold passes at h
    split at h
    · next hempty =>
      have hnil : queue = [] := List.isEmpty_iff.1 hempty
      subst hnil
      cases hq
      cases h
      exact ⟨[], [], .settled c, by simp [drawn], fun _ => rfl, fun hne => absurd rfl hne⟩
    next hempty =>
    obtain ⟨tried, e, ht, h⟩ := exec_bind_eq_ok h
    obtain ⟨calls, hpass, hindex, rfl⟩ := exists_pass hq hin ht
    have hlen' : is.length = queue.length := hq.length_eq
    have hq' := queued_pendings nodes base origin calls
    rw [chunks_eq] at h
    simp only at h
    split at h
    · next hstuck =>
      -- A pass that settles nothing leaves all of its nodes waiting.
      have hw : waiting calls = is := by
        rw [← hindex]
        refine (waiting_sublist calls).eq_of_length ?_
        rw [hindex, hlen', ← beq_iff_eq.1 hstuck, hq'.length_eq]
      have hne : is ≠ [] := by
        rintro rfl
        cases hq
        exact hempty rfl
      cases h
      refine ⟨[calls], is, .stuck hne hpass hw, by simp, fun hnil => absurd hnil hne, fun _ => ?_⟩
      exact ⟨calls, rfl, hindex, hw, why_pendings calls⟩
    · next hmoves =>
      have hw : waiting calls ≠ is := by
        intro hw
        refine hmoves (beq_iff_eq.2 ?_)
        rw [← hq'.length_eq, hw, hlen']
      have hless : (waiting calls).length < calls.length := length_waiting_lt (hindex.symm ▸ hw)
      have hcalls : calls.length = is.length := by rw [← hindex, List.length_map]
      obtain ⟨later, left, hrounds, hchunks, hnil, hlast⟩ := ih hq'
        (fun i hi => hin i (hindex ▸ (waiting_sublist calls).subset hi))
        (by rw [← hq'.length_eq]; omega) h
      refine ⟨calls :: later, left, .progress hpass hw hrounds, ?_, hnil, fun hne => ?_⟩
      · rw [hchunks, List.flatten_cons, drawn_append, List.map_append, List.append_assoc]
      · obtain ⟨last, hlast, hrest⟩ := hlast hne
        refine ⟨last, ?_, hrest⟩
        rw [List.getLast?_cons, hlast, Option.getD_some]

end Runs

/-! ## Every node once -/

section Accounting

variable {step : Step} {nodes : List Node} {base : Order} {origin : Nat → Context}

/-- The calls of a pass succeed or wait. -/
theorem perm_index (calls : List Call) :
    ((drawn calls).map Prod.fst ++ waiting calls).Perm (calls.map Call.index) := by
  induction calls with
  | nil => exact .nil
  | cons k calls ih =>
    obtain ⟨i, b, why | d, a⟩ := k
    · exact List.perm_middle.trans (ih.cons i)
    · exact ih.cons i

theorem Walk.index_eq {i : Nat} {c d : Context} {calls : List Call}
    (h : Walk step nodes base i c calls d) :
    calls.map Call.index = List.range' i (nodes.length - i) := by
  induction h with
  | done c => simp
  | tried hn hk _ ih =>
    rename_i k n calls d _
    have hlt := (List.getElem?_eq_some_iff.1 hn).1
    obtain ⟨m, hm⟩ : ∃ m, nodes.length - k.index = m + 1 := ⟨nodes.length - k.index - 1, by omega⟩
    rw [List.map_cons, ih, hm, List.range'_succ, show nodes.length - (k.index + 1) = m by omega]

theorem Pass.index_eq {is : List Nat} {c d : Context} {calls : List Call}
    (h : Pass step nodes base origin is c calls d) : calls.map Call.index = is := by
  induction h with
  | done c => rfl
  | tried _ _ _ ih => rw [List.map_cons, ih]

theorem Rounds.perm {is left : List Nat} {c d : Context} {later : List (List Call)}
    (h : Rounds step nodes base origin is c later left d) :
    ((drawn later.flatten).map Prod.fst ++ left).Perm is := by
  induction h with
  | settled c => exact .nil
  | stuck _ hp hw =>
    have := perm_index ‹List Call›
    rw [hp.index_eq, hw] at this
    simpa using this
  | progress hp _ _ ih =>
    have := perm_index ‹List Call›
    rw [hp.index_eq] at this
    rw [List.flatten_cons, drawn_append, List.map_append, List.append_assoc]
    exact (ih.append_left _).trans this

theorem Rounds.left_sublist {is left : List Nat} {c d : Context} {later : List (List Call)}
    (h : Rounds step nodes base origin is c later left d) : left.Sublist is := by
  induction h with
  | settled c => exact .slnil
  | stuck => exact List.Sublist.refl _
  | progress hp _ _ ih => exact ih.trans (hp.index_eq ▸ waiting_sublist _)

namespace Trace

variable {t : Trace} {c d : Context} {left : List Nat}

theorem Runs.index_first (h : t.Runs step nodes base c left d) :
    t.first.map Call.index = List.range nodes.length := by
  obtain ⟨e, hwalk, -⟩ := h
  rw [hwalk.index_eq, Nat.sub_zero, List.range_eq_range']

theorem Runs.left_sublist (h : t.Runs step nodes base c left d) :
    left.Sublist (List.range nodes.length) := by
  have hindex := h.index_first
  obtain ⟨e, -, hrounds⟩ := h
  exact hrounds.left_sublist.trans (hindex ▸ waiting_sublist _)

/-- Successful calls and waiting nodes together are the nodes, each once. -/
theorem Runs.perm_range (h : t.Runs step nodes base c left d) :
    ((drawn t.calls).map Prod.fst ++ left).Perm (List.range nodes.length) := by
  have hindex := h.index_first
  obtain ⟨e, -, hrounds⟩ := h
  have hfirst := perm_index t.first
  rw [hindex] at hfirst
  rw [calls, drawn_append, List.map_append, List.append_assoc]
  exact (hrounds.perm.append_left _).trans hfirst

theorem drawings_eq (t : Trace) (i : Nat) :
    t.drawings i = ((drawn t.calls).filter (·.1 == i)).map Prod.snd := by
  unfold drawings drawn
  induction t.calls with
  | nil => rfl
  | cons k calls ih =>
    rcases hk : k.drawing? with _ | d <;> by_cases hj : k.index == i <;>
      simp [hk, hj, ih]

/-- A settled node has exactly one drawing. -/
theorem Runs.drawings_of_mem (h : t.Runs step nodes base c left d) {i : Nat} {x : Drawing}
    (hi : (i, x) ∈ drawn t.calls) : t.drawings i = [x] := by
  have hnodup : ((drawn t.calls).map Prod.fst).Nodup :=
    (List.nodup_append.1 (h.perm_range.nodup_iff.2 List.nodup_range)).1
  rw [drawings_eq]
  generalize drawn t.calls = ps at hi hnodup
  induction ps with
  | nil => cases hi
  | cons p ps ih =>
    rw [List.map_cons, List.nodup_cons] at hnodup
    have other : ∀ q ∈ ps, q.1 ≠ p.1 := fun q hq heq => hnodup.1 (heq ▸ List.mem_map_of_mem hq)
    rcases List.mem_cons.1 hi with rfl | hi
    · have : ps.filter (fun q => q.1 == i) = [] := by
        rw [List.filter_eq_nil_iff]
        intro q hq
        simpa using other q hq
      simp [this]
    · have hne : p.1 ≠ i := fun heq => other (i, x) hi heq.symm
      rw [List.filter_cons_of_neg (by simpa using hne)]
      exact ih hi hnodup.2

/-- A waiting node has none. -/
theorem Runs.drawings_of_left (h : t.Runs step nodes base c left d) {i : Nat} (hi : i ∈ left) :
    t.drawings i = [] := by
  have hdisj := (List.nodup_append.1 (h.perm_range.nodup_iff.2 List.nodup_range)).2.2
  rw [drawings_eq, List.map_eq_nil_iff, List.filter_eq_nil_iff]
  intro p hp heq
  exact hdisj p.1 (List.mem_map_of_mem hp) i hi (by simpa using heq)

/-- The nodes that are settled in the end, in source order. -/
def resolved (n : Nat) (left : List Nat) : List Nat := (List.range n).filter (!left.contains ·)

/-- The one drawing of a settled node. -/
def drawing (t : Trace) (i : Nat) : Drawing := (t.drawings i).headD {}

/-- The successful calls are those for the settled nodes, in another order. -/
theorem Runs.perm_resolved (h : t.Runs step nodes base c left d) :
    (drawn t.calls).Perm ((resolved nodes.length left).map fun i => (i, t.drawing i)) := by
  have hnodup := h.perm_range.nodup_iff.2 List.nodup_range
  have hkeys : ((drawn t.calls).map Prod.fst).Perm (resolved nodes.length left) := by
    refine (List.perm_ext_iff_of_nodup (List.nodup_append.1 hnodup).1
      (List.nodup_range.filter _)).2 fun i => ?_
    have hmem : i ∈ (drawn t.calls).map Prod.fst ∨ i ∈ left ↔ i < nodes.length := by
      rw [← List.mem_append, h.perm_range.mem_iff, List.mem_range]
    have hdisj := (List.nodup_append.1 hnodup).2.2 i
    simp only [List.mem_filter, List.mem_range, ← hmem, Bool.not_eq_true',
      List.contains_eq_mem, decide_eq_false_iff_not]
    constructor
    · exact fun hi => ⟨.inl hi, fun hl => hdisj hi i hl rfl⟩
    · exact fun ⟨hi, hl⟩ => hi.resolve_right hl
  have hself : drawn t.calls = ((drawn t.calls).map Prod.fst).map fun i => (i, t.drawing i) := by
    rw [List.map_map]
    refine (List.map_id _).symm.trans (List.map_congr_left fun p hp => ?_)
    simp [drawing, h.drawings_of_mem (show (p.1, p.2) ∈ drawn t.calls from hp)]
  rw [hself]
  exact hkeys.map _

theorem Runs.mem_drawn (h : t.Runs step nodes base c left d) {i : Nat} (hi : i < nodes.length)
    (hl : i ∉ left) : (i, t.drawing i) ∈ drawn t.calls :=
  h.perm_resolved.mem_iff.2 (List.mem_map_of_mem (List.mem_filter.2 (by simp [hi, hl])))

end Trace

end Accounting

/-! ## Source order -/

section Assembly

variable {step : Step} {nodes : List Node} {base : Order} {t : Trace} {c d : Context} {left : List Nat}

/-- Sorting by place gives the drawings of the settled nodes in source order. -/
theorem inOrder_eq (h : t.Runs step nodes base c left d) :
    inOrder ((drawn t.calls).map (chunkAt base)) =
      (Trace.resolved nodes.length left).map t.drawing := by
  have sorted : (((Trace.resolved nodes.length left).map fun i => (i, t.drawing i)).map
      (chunkAt base)).Pairwise fun a b => (a.order.compare b.order).isLE := by
    rw [List.map_map, List.pairwise_map]
    refine (List.pairwise_lt_range.sublist List.filter_sublist).imp fun hlt => ?_
    exact (Order.isLE_compare_sub _ _ _).2 (Int.ofNat_le.2 (Nat.le_of_lt hlt))
  have hperm := (List.mergeSort_perm ((drawn t.calls).map (chunkAt base))
    fun a b => (a.order.compare b.order).isLE).trans (h.perm_resolved.map (chunkAt base))
  -- Chunks at one place are the same chunk, since every place is settled once.
  have same : ∀ a b, a ∈ ((drawn t.calls).map (chunkAt base)).mergeSort
        (fun a b => (a.order.compare b.order).isLE) →
      b ∈ ((Trace.resolved nodes.length left).map fun i => (i, t.drawing i)).map (chunkAt base) →
      (a.order.compare b.order).isLE → (b.order.compare a.order).isLE → a = b := by
    intro a b ha hb hab hba
    obtain ⟨p, hp, rfl⟩ := List.mem_map.1 (hperm.mem_iff.1 ha)
    obtain ⟨q, hq, rfl⟩ := List.mem_map.1 hb
    obtain ⟨i, -, rfl⟩ := List.mem_map.1 hp
    obtain ⟨j, -, rfl⟩ := List.mem_map.1 hq
    have hij := (Order.isLE_compare_sub base i j).1 hab
    have hji := (Order.isLE_compare_sub base j i).1 hba
    rw [show i = j by omega]
  have ordered : (((drawn t.calls).map (chunkAt base)).mergeSort
      fun a b => (a.order.compare b.order).isLE).Pairwise fun a b => (a.order.compare b.order).isLE := by
    apply List.pairwise_mergeSort
    · exact fun _ _ _ => Std.TransCmp.isLE_trans
    · exact fun a b => Order.isLE_compare_total a.order b.order
  rw [inOrder, hperm.eq_of_pairwise same ordered sorted, List.map_map, List.map_map]
  rfl

/-- Every drawing with the one behind it. -/
def followed (ds : List Drawing) : List (Drawing × Option Drawing) :=
  ds.zip (ds.tail.map some ++ [none])

/-- The events of drawings one after the other. White space is left out if the drawing behind it has no events. -/
def shownEvents (ds : List Drawing) : List Event :=
  (followed ds).flatMap fun p =>
    if tidy.isBlank p.1 && p.2.any (·.events.isEmpty) then [] else p.1.events

theorem shownEvents_cons (d e : Drawing) (rest : List Drawing) :
    shownEvents (d :: e :: rest) =
      (if tidy.isBlank d && e.events.isEmpty then [] else d.events) ++ shownEvents (e :: rest) := rfl

theorem events_tidy (ds : List Drawing) : (tidy ds).flatMap Drawing.events = shownEvents ds := by
  fun_induction tidy ds with
  | case1 d e rest h ih => rw [ih, shownEvents_cons, if_pos h, List.nil_append]
  | case2 d e rest h ih => rw [List.flatMap_cons, ih, shownEvents_cons, if_neg h]
  | case3 ds h =>
    rcases ds with _ | ⟨d, _ | ⟨e, rest⟩⟩
    · rfl
    · simp [shownEvents, followed]
    · exact absurd rfl (h d e rest)

theorem box_tidy {ds : List Drawing} (h : ∀ d ∈ ds, tidy.isBlank d → d.box = none) :
    ∀ b, (tidy ds).foldl (fun b d => Drawing.joinBox b d.box) b =
      ds.foldl (fun b d => Drawing.joinBox b d.box) b := by
  fun_induction tidy ds with
  | case1 d e rest hd ih =>
    intro b
    obtain ⟨hblank, h⟩ := List.forall_mem_cons.1 h
    rw [ih h]
    show _ = (e :: rest).foldl _ (Drawing.joinBox b d.box)
    rw [hblank (Bool.and_eq_true_iff.1 hd).1]
    rfl
  | case2 d e rest hd ih =>
    intro b
    exact ih (List.forall_mem_cons.1 h).2 (Drawing.joinBox b d.box)
  | case3 => exact fun _ => rfl

/-- Calls that are all listed as waiting have all been deferred. -/
theorem deferred_of_waiting {calls : List Call} (h : waiting calls = calls.map Call.index) :
    ∀ k ∈ calls, k.drawing?.isNone := by
  have hl : (calls.filter fun k => k.drawing?.isNone).length = calls.length := by
    simpa [waiting] using congrArg List.length h
  exact List.filter_eq_self.1 (List.filter_sublist.eq_of_length hl)

/-- Calls of which none succeeded have their reasons as results. -/
theorem results_eq {calls : List Call} (h : waiting calls = calls.map Call.index) :
    calls.map Call.result = (reasons calls).map .error := by
  have hall := deferred_of_waiting h
  clear h
  induction calls with
  | nil => rfl
  | cons k calls ih =>
    obtain ⟨hk, hrest⟩ := List.forall_mem_cons.1 hall
    obtain ⟨i, b, why | d, a⟩ := k
    · exact congrArg (Except.error why :: ·) (ih hrest)
    · cases hk

theorem Walk.made {i : Nat} {c d : Context} {calls : List Call}
    (h : Walk step nodes base i c calls d) : ∀ k ∈ calls, k.Made step nodes base := by
  induction h with
  | done c => simp
  | tried _ hk _ ih => exact List.forall_mem_cons.2 ⟨hk, ih⟩

theorem Pass.made {origin : Nat → Context} {is : List Nat} {c d : Context} {calls : List Call}
    (h : Pass step nodes base origin is c calls d) : ∀ k ∈ calls, k.Made step nodes base := by
  induction h with
  | done c => simp
  | tried hk _ _ ih => exact List.forall_mem_cons.2 ⟨hk, ih⟩

theorem Rounds.made {origin : Nat → Context} {is left : List Nat} {c d : Context}
    {later : List (List Call)} (h : Rounds step nodes base origin is c later left d) :
    ∀ k ∈ later.flatten, k.Made step nodes base := by
  induction h with
  | settled c => simp
  | stuck _ hp _ => simpa using hp.made
  | progress hp _ _ ih =>
    rw [List.flatten_cons]
    exact List.forall_mem_append.2 ⟨hp.made, ih⟩

theorem Trace.Runs.made (h : t.Runs step nodes base c left d) : ∀ k ∈ t.calls, k.Made step nodes base := by
  obtain ⟨e, hwalk, hrounds⟩ := h
  exact List.forall_mem_append.2 ⟨hwalk.made, hrounds.made⟩

/-- What every successful call gives holds of the drawings of the settled nodes. -/
theorem Trace.Runs.drawing_of (h : t.Runs step nodes base c left d) {P : Drawing → Prop}
    (hP : ∀ n order c x c', exec (step n order) c = (.ok x, c') → P x) :
    ∀ i ∈ resolved nodes.length left, P (t.drawing i) := by
  intro i hi
  have hmem := h.perm_resolved.mem_iff.2 (List.mem_map_of_mem hi)
  obtain ⟨k, hk, hx⟩ := List.mem_filterMap.1 hmem
  obtain ⟨n, -, hrun⟩ := h.made k hk
  obtain ⟨x, hr, hx⟩ := Option.map_eq_some_iff.1 hx
  rw [← (Prod.mk.inj hx).2]
  clear hx
  obtain ⟨j, b, why | y, a⟩ := k
  · cases hr
  · cases hr
    exact hP _ _ _ _ _ hrun

end Assembly

/-- What a node draws is sound, whatever the context. -/
theorem sound_of_drawNode {turns levels : Nat} {n : Node} {order : Order} {c c' : Context} {x : Drawing}
    (h : exec (drawNode (drawElement turns levels) n order) c = (.ok x, c')) :
    x.Sound fun _ => True := by
  have free : ∀ n : Node, n.Fits (Element.Named fun _ => True) :=
    fun n e _ el _ _ _ => trivial
  have hstep := stepSound_drawNode (ensures_drawElement (fun _ _ => trivial) turns levels) n order
    (free n) c ⟨fun p _ => free p.2, fun p _ => free p.2, fun _ _ _ _ => trivial⟩
  rw [h] at hstep
  exact hstep.2 x rfl

/-- White space has no box. -/
theorem box_of_isBlank {x : Drawing} (h : x.Sound fun _ => True) (hb : tidy.isBlank x) :
    x.box = none := by
  by_contra hbox
  obtain ⟨e, he, hel⟩ := h.shown (Option.isSome_iff_ne_none.2 hbox)
  unfold tidy.isBlank at hb
  split at hb
  · next l heq =>
    rw [heq, List.mem_singleton] at he
    subst he
    cases hel
  · cases hb

/-- A run without a hard error has a trace, and its chunks and reasons are those of the trace. -/
theorem exists_runs {step : Step} {nodes : List Node} {base : Order} {c c' : Context} {d : Drawing}
    {stalled : List Deferral} (h : exec (draw step nodes base) c = (.ok (d, stalled), c')) :
    ∃ (t : Trace) (left : List Nat), t.Runs step nodes base c left c' ∧
      d = assemble ((drawn t.calls).map (chunkAt base)) ∧ (left = [] → stalled = []) ∧
      (left ≠ [] → ∃ calls, t.later.getLast? = some calls ∧ calls.map Call.index = left ∧
        calls.map Call.result = stalled.map .error) := by
  unfold draw at h
  obtain ⟨tried, e, ht, h⟩ := exec_bind_eq_ok h
  obtain ⟨r, e', hr, h⟩ := exec_bind_eq_ok h
  rw [exec_pure] at h
  cases h
  obtain ⟨first, hwalk, hindex, htried⟩ := exists_walk List.drop_zero (Nat.zero_le _) ht
  let t : Trace := ⟨first, []⟩
  have horigin : ∀ k ∈ first, t.origin k.index = k.before := by
    intro k hk
    obtain ⟨j, hj, hget⟩ := List.mem_iff_getElem.1 hk
    have hkj : k.index = j := by
      have := List.getElem_of_eq hindex (i := j) (by simpa using hj)
      simpa [hget] using this
    rw [Trace.origin, hkj, List.getElem?_eq_getElem hj, hget]
    rfl
  obtain rfl := htried t.origin horigin
  rw [chunks_eq] at hr
  have hin : ∀ i ∈ waiting first, i < nodes.length := by
    intro i hi
    have := hindex ▸ (waiting_sublist first).subset hi
    simpa using this
  obtain ⟨later, left, hrounds, hchunks, hnil, hlast⟩ :=
    exists_rounds (queued_pendings nodes base t.origin first) hin (Nat.le_refl _) hr
  refine ⟨⟨first, later⟩, left, ⟨e, hwalk, hrounds⟩, ?_, fun hl => by rw [hnil hl]; rfl, fun hl => ?_⟩
  · rw [hchunks, Trace.calls, drawn_append, List.map_append]
  · obtain ⟨calls, hget, hi, hw, hwhy⟩ := hlast hl
    refine ⟨calls, hget, hi, ?_⟩
    rw [results_eq (hw.trans hi.symm), hwhy]

/-- A run over siblings loses, doubles and reorders nothing. Some nodes are left waiting. Every other node was drawn by
exactly one call, and these drawings stand in source order. What is left was tried, all of it and nothing else, in a last
pass that settled none. -/
theorem draw_accounts (turns levels : Nat) (nodes : List Node) (base : Order) (c c' : Context)
    (d : Drawing) (stalled : List Deferral)
    (h : exec (draw (drawNode (drawElement turns levels)) nodes base) c = (.ok (d, stalled), c')) :
    ∃ (t : Trace) (left : List Nat) (out : Nat → Drawing),
      t.Runs (drawNode (drawElement turns levels)) nodes base c left c' ∧
      left.Sublist (List.range nodes.length) ∧
      (∀ i < nodes.length, i ∉ left → t.drawings i = [out i]) ∧
      (∀ i ∈ left, t.drawings i = []) ∧
      d.events = shownEvents ((Trace.resolved nodes.length left).map out) ∧
      d.box = ((Trace.resolved nodes.length left).map out).foldl
        (fun b e => Drawing.joinBox b e.box) none ∧
      stalled.length = left.length ∧
      (left ≠ [] → ∃ calls, t.later.getLast? = some calls ∧ calls.map Call.index = left ∧
        calls.map Call.result = stalled.map .error) := by
  obtain ⟨t, left, hruns, rfl, hnil, hlast⟩ := exists_runs h
  have blank : ∀ e ∈ (Trace.resolved nodes.length left).map t.drawing, tidy.isBlank e → e.box = none := by
    intro e he
    obtain ⟨i, hi, rfl⟩ := List.mem_map.1 he
    exact hruns.drawing_of (fun n order c x c' hx => box_of_isBlank (sound_of_drawNode hx)) i hi
  refine ⟨t, left, t.drawing, hruns, hruns.left_sublist, fun i hi hl => ?_, fun i hi => ?_, ?_, ?_, ?_,
    hlast⟩
  · exact hruns.drawings_of_mem (hruns.mem_drawn hi hl)
  · exact hruns.drawings_of_left hi
  · rw [← events_tidy, ← inOrder_eq hruns]
    rfl
  · rw [← box_tidy blank, ← inOrder_eq hruns]
    rfl
  · by_cases hl : left = []
    · rw [hnil hl, hl]
      rfl
    · obtain ⟨calls, -, hi, hr⟩ := hlast hl
      rw [← hi, List.length_map, ← List.length_map (f := Call.result), hr, List.length_map]

/-- A square that stands at the second one, the second one, and a square that waits in vain. -/
def threeSquares : List Node :=
  [.element (.ofAttrs "rect" [("id", "a"), ("xy", "#b"), ("wh", "1")]) [],
    .element (.ofAttrs "rect" [("id", "b"), ("xy", "1 2"), ("wh", "1")]) [],
    .element (.ofAttrs "rect" [("id", "c"), ("xy", "#d"), ("wh", "1")]) []]

theorem draw_accounts_threeSquares :
    ∃ (t : Trace) (left : List Nat) (out : Nat → Drawing) (d : Drawing) (c' : Context),
      t.Runs (drawNode (drawElement 0 2)) threeSquares ⟨[0]⟩ (.new {}) left c' ∧ left.length = 1 ∧
      (∀ i < 3, i ∉ left → t.drawings i = [out i]) ∧
      d.events = shownEvents ((Trace.resolved 3 left).map out) := by
  have one : (exec (draw (drawNode (drawElement 0 2)) threeSquares ⟨[0]⟩) (.new {})).1.toOption.map
      (fun r => r.2.length) = some 1 := by decide +kernel
  rcases h : exec (draw (drawNode (drawElement 0 2)) threeSquares ⟨[0]⟩) (.new {}) with ⟨r, c'⟩
  rw [h] at one
  rcases r with f | ⟨d, _ | ⟨w, _ | _⟩⟩
  · cases one
  · cases one
  · obtain ⟨t, left, out, hruns, -, honce, -, hevents, -, hlength, -⟩ :=
      draw_accounts 0 2 threeSquares ⟨[0]⟩ (.new {}) c' d [w] h
    exact ⟨t, left, out, d, c', hruns, hlength.symm, honce, hevents⟩
  · cases one

end Siblings

end DiagramMarkup
