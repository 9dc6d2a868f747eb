import Mathlib.Order.Bounds.Defs
import DiagramMarkup.Proofs.Literal
import DiagramMarkup.Proofs.Passes

/-!
# Runs over literal shapes

A run over siblings is one chain of calls, whichever pass makes them: each call starts from what the one before it left,
as far as drawing looks at it (`Chain`). For literal shapes with distinct identifiers the chain tells what is resolved.

1. What is resolved stays so, with the same box, since no identifier is registered twice (`Chain.within`).
2. The last pass changes nothing, so what is left waiting waits for what the run leaves unresolved.
3. So the shapes that are settled are the least set closed under references (`isLeast_settled`).
-/

namespace DiagramMarkup

open Element

namespace Siblings

/-! ## Chains -/

section Chains

variable {step : Step} {nodes : List Node} {base : Order}

/-- Calls one after the other, as far as drawing looks at the contexts. -/
inductive Chain (step : Step) (nodes : List Node) (base : Order) : Context → List Call → Context → Prop
  | done {c d : Context} (h : d.core = c.core) : Chain step nodes base c [] d
  | call {k : Call} {c d : Context} {calls : List Call} (hk : k.Made step nodes base)
    (hb : k.before.core = c.core) (h : Chain step nodes base k.after calls d) :
    Chain step nodes base c (k :: calls) d

theorem Chain.of_core {c c' d : Context} {calls : List Call} (h : Chain step nodes base c calls d)
    (hc : c.core = c'.core) : Chain step nodes base c' calls d := by
  cases h with
  | done hd => exact .done (hd.trans hc)
  | call hk hb h => exact .call hk (hb.trans hc) h

theorem Chain.append {c d e : Context} {calls more : List Call} (h : Chain step nodes base c calls d)
    (h' : Chain step nodes base d more e) : Chain step nodes base c (calls ++ more) e := by
  induction h with
  | done hd => exact h'.of_core hd
  | call hk hb _ ih => exact .call hk hb (ih h')

/-- Calls in the scope leave it as it is. -/
def KeepsScope (step : Step) (nodes : List Node) (base : Order) (scope : Scope) : Prop :=
  ∀ k : Call, k.Made step nodes base → k.before.scope = scope → k.after.scope = scope

theorem core_aim (n : Node) (order : Order) (c : Context) : (aim n order c).core = c.core := by
  unfold aim
  split <;> rfl

theorem scope_aim (n : Node) (order : Order) (c : Context) : (aim n order c).scope = c.scope := by
  unfold aim
  split <;> rfl

variable {scope : Scope} (hkeep : KeepsScope step nodes base scope)

include hkeep

theorem Walk.chain {i : Nat} {c d : Context} {calls : List Call} (h : Walk step nodes base i c calls d)
    (hc : c.scope = scope) :
    Chain step nodes base c calls d ∧ d.scope = scope ∧ ∀ k ∈ calls, k.before.scope = scope := by
  induction h with
  | done c => exact ⟨.done rfl, hc, by simp⟩
  | tried hn hk _ ih =>
    obtain ⟨hchain, hd, hall⟩ := ih (by rw [scope_aim]; exact hkeep _ hk hc)
    exact ⟨.call hk rfl (hchain.of_core (core_aim _ _ _)), hd, List.forall_mem_cons.2 ⟨hc, hall⟩⟩

variable {origin : Nat → Context}

theorem Pass.chain {is : List Nat} {c d : Context} {calls : List Call}
    (h : Pass step nodes base origin is c calls d) (ho : ∀ i ∈ is, (origin i).scope = scope)
    (hc : c.scope = scope) :
    Chain step nodes base c calls d ∧ d.scope = scope ∧ ∀ k ∈ calls, k.before.scope = scope := by
  induction h with
  | done c => exact ⟨.done rfl, hc, by simp⟩
  | @tried k is calls c d hk hb _ ih =>
    obtain ⟨hi, ho⟩ := List.forall_mem_cons.1 ho
    have hscope : k.before.scope = scope := by rw [hb, ← hi]
    have hafter : k.after.scope = c.scope := by rw [hkeep k hk hscope, hc]
    have hcore : k.before.core = c.core := by
      rw [hb]
      unfold Context.core
      rw [hi, hc]
    obtain ⟨hchain, hd, hall⟩ := ih ho hc
    refine ⟨.call hk hcore (hchain.of_core ?_), hd, List.forall_mem_cons.2 ⟨hscope, hall⟩⟩
    unfold Context.core
    rw [hafter]

theorem Rounds.chain {is left : List Nat} {c d : Context} {later : List (List Call)}
    (h : Rounds step nodes base origin is c later left d) (ho : ∀ i ∈ is, (origin i).scope = scope)
    (hc : c.scope = scope) :
    Chain step nodes base c later.flatten d ∧ ∀ k ∈ later.flatten, k.before.scope = scope := by
  induction h with
  | settled c => exact ⟨.done rfl, by simp⟩
  | stuck _ hp _ =>
    obtain ⟨hchain, -, hall⟩ := hp.chain hkeep ho hc
    simpa using ⟨hchain, hall⟩
  | @progress is left calls later c d e hp _ _ ih =>
    obtain ⟨hchain, hd, hall⟩ := hp.chain hkeep ho hc
    have hsub : ∀ i ∈ waiting calls, i ∈ is := fun i hi => hp.index_eq ▸ (waiting_sublist calls).subset hi
    obtain ⟨hrest, hlater⟩ := ih (fun i hi => ho i (hsub i hi)) hd
    exact ⟨hchain.append hrest, List.forall_mem_append.2 ⟨hall, hlater⟩⟩

omit hkeep in
/-- Calls that all wait change nothing. -/
theorem Chain.unchanged {c d : Context} {calls : List Call} (h : Chain step nodes base c calls d)
    (hwait : ∀ k ∈ calls, k.after.core = k.before.core) :
    d.core = c.core ∧ ∀ k ∈ calls, k.before.core = d.core := by
  induction h with
  | done hd => exact ⟨hd, by simp⟩
  | call hk hb _ ih =>
    obtain ⟨hk, hrest⟩ := List.forall_mem_cons.1 hwait
    obtain ⟨hd, hall⟩ := ih hrest
    exact ⟨hd.trans (hk.trans hb), List.forall_mem_cons.2 ⟨(hd.trans hk).symm, hall⟩⟩

/-- What is left waiting was tried in the context that the run leaves, since the last pass changed nothing. -/
theorem Rounds.left_tried {is left : List Nat} {c d : Context} {later : List (List Call)}
    (h : Rounds step nodes base origin is c later left d) (ho : ∀ i ∈ is, (origin i).scope = scope)
    (hc : c.scope = scope)
    (hwait : ∀ k : Call, k.Made step nodes base → k.before.scope = scope → k.drawing? = none →
      k.after.core = k.before.core) :
    ∀ i ∈ left, ∃ k : Call, k.Made step nodes base ∧ k.before.scope = scope ∧ k.index = i ∧
      k.drawing? = none ∧ k.before.core = d.core := by
  induction h with
  | settled c => simp
  | @stuck is calls c d _ hp hw =>
    obtain ⟨hchain, -, hscope⟩ := hp.chain hkeep ho hc
    have hall : ∀ k ∈ calls, k.drawing? = none := fun k hk =>
      Option.isNone_iff_eq_none.1 (deferred_of_waiting (hw.trans hp.index_eq.symm) k hk)
    have hkept := (hchain.unchanged fun k hk => hwait k (hp.made k hk) (hscope k hk) (hall k hk)).2
    intro i hi
    rw [← hp.index_eq] at hi
    obtain ⟨k, hk, rfl⟩ := List.mem_map.1 hi
    exact ⟨k, hp.made k hk, hscope k hk, rfl, hall k hk, hkept k hk⟩
  | @progress is left calls later c d e hp _ _ ih =>
    obtain ⟨-, hd, -⟩ := hp.chain hkeep ho hc
    exact ih (fun i hi => ho i (hp.index_eq ▸ (waiting_sublist calls).subset hi)) hd

theorem Trace.Runs.chain {t : Trace} {c d : Context} {left : List Nat} (h : t.Runs step nodes base c left d)
    (hc : c.scope = scope)
    (hwait : ∀ k : Call, k.Made step nodes base → k.before.scope = scope → k.drawing? = none →
      k.after.core = k.before.core) :
    Chain step nodes base c t.calls d ∧ (∀ k ∈ t.calls, k.before.scope = scope) ∧
      ∀ i ∈ left, ∃ k : Call, k.Made step nodes base ∧ k.before.scope = scope ∧ k.index = i ∧
        k.drawing? = none ∧ k.before.core = d.core := by
  have hindex := h.index_first
  obtain ⟨e, hwalk, hrounds⟩ := h
  obtain ⟨hchain, he, hall⟩ := hwalk.chain hkeep hc
  have horigin : ∀ i ∈ waiting t.first, (t.origin i).scope = scope := by
    intro i hi
    have hlt : i < t.first.length := by
      have := hindex ▸ (waiting_sublist t.first).subset hi
      rw [← List.length_map (f := Call.index), hindex, List.length_range]
      simpa using this
    rw [Trace.origin, List.getElem?_eq_getElem hlt]
    exact hall _ (List.getElem_mem hlt)
  obtain ⟨hrest, hlater⟩ := hrounds.chain hkeep horigin he
  exact ⟨hchain.append hrest, List.forall_mem_append.2 ⟨hall, hlater⟩,
    hrounds.left_tried hkeep horigin he hwait⟩

end Chains

end Siblings

/-! ## Shapes -/

namespace Figure

/-- A shape as written, settled by these answers. -/
def view (o : Options) (refs : Position.Referrer Float) (el : Element) : Except Failure Settled :=
  settle o (fun _ => refs) el.spread

variable {o : Options} {refs refs' : Position.Referrer Float} {el : Element}

theorem view_eq_ok {s : Settled} (h : view o refs el = .ok s) :
    s.element.id = el.id ∧ ∀ t ∈ references el, ∃ b, refs t = .ok b := by
  obtain ⟨hid, hrefs⟩ := (asks_settle o el.spread).ok _ s h
  refine ⟨hid.trans (congrArg (·.getD "") (get?_spread el "id")), fun t ht => ?_⟩
  rw [← references_placed_spread el.order] at ht
  obtain ⟨-, b, hb⟩ := hrefs t ht
  exact ⟨b, hb⟩

theorem waits_view (h : Waits (view o refs el)) : ∃ t ∈ references el, Waits (refs t) := by
  obtain ⟨t, ht, -, hw⟩ := (asks_settle o el.spread).waits _ h
  exact ⟨t, references_placed_spread el.order el ▸ ht, hw⟩

theorem below_view (h : ∀ t ∈ references el, Below (refs t) (refs' t)) :
    Below (view o refs el) (view o refs' el) :=
  (asks_settle o el.spread).below _ _ fun t ht _ => h t (references_placed_spread el.order el ▸ ht)

end Figure

namespace Context

theorem recorded?_record_self (c : Context) {s : Figure.Settled} (h : s.element.id ≠ "") :
    (c.record s).recorded? s.element.id = some ⟨s.element, s.box⟩ := by
  rw [record_eq]
  unfold recorded? Registry.register
  simp [h]

theorem recorded?_record_of_ne (c : Context) {s : Figure.Settled} {id : String}
    (h : s.element.id ≠ "" → id ≠ s.element.id) : (c.record s).recorded? id = c.recorded? id := by
  rw [record_eq]
  unfold recorded? Registry.register
  by_cases hid : s.element.id = ""
  · simp [hid]
  · simp [hid, List.lookup_cons, beq_false_of_ne (h hid)]

end Context

/-- Literal shapes of which no two have the same identifier. -/
structure LiteralShapes (els : List Element) : Prop where
  literal : ∀ el ∈ els, el.Literal
  shape : ∀ el ∈ els, Role.ofName el.name = .shape
  ids : els.Pairwise fun a b => a.id ≠ "" → a.id ≠ b.id

/-- Shapes without content as nodes. -/
def childless (els : List Element) : List Node := els.map (.element · [])

/-- Every shape all of whose references name members of the set is in the set. -/
def Closed (els : List Element) (members : Set Nat) : Prop :=
  ∀ i el, els[i]? = some el → (∀ t ∈ Figure.references el,
    ∃ j fl, els[j]? = some fl ∧ j ∈ members ∧ fl.id ≠ "" ∧ t = "#" ++ fl.id) → i ∈ members

namespace Siblings

section Shapes

variable {els : List Element} (hels : LiteralShapes els) {base : Order} {turns levels : Nat} {scope : Scope}
  (hscope : scope.defaults = [])

/-- A call for a shape draws and records it, or it waits. -/
inductive Call.Outcome (base : Order) (el : Element) (k : Call) : Prop
  | drawn (s : Figure.Settled) (hs : Figure.view k.before.options k.before.boxOf el = .ok s)
    (hr : k.result = .ok (picture k.before.options el (s.placed (base.sub k.index))))
    (hd : k.after.core = (k.before.record (s.placed (base.sub k.index))).core)
  | waits (hw : Waits (Figure.view k.before.options k.before.boxOf el)) (hr : k.drawing? = none)
    (hd : k.after.core = k.before.core)

include hels

theorem Call.Made.outcome {k : Call}
    (hk : k.Made (drawNode (drawElement turns (levels + 1))) (childless els) base)
    (hs : k.before.scope.defaults = []) : ∃ el, els[k.index]? = some el ∧ k.Outcome base el := by
  obtain ⟨n, hn, hrun⟩ := hk
  rw [childless, List.getElem?_map, Option.map_eq_some_iff] at hn
  obtain ⟨el, hel, rfl⟩ := hn
  have hmem := List.mem_of_getElem? hel
  have hdrawn := drawn_drawNode (hels.literal el hmem) (hels.shape el hmem) hs turns levels
    (base.sub k.index)
  refine ⟨el, hel, ?_⟩
  rw [hrun, Figure.settle_placed] at hdrawn
  obtain ⟨i, b, r, a⟩ := k
  change Drawn el b a (Figure.Settled.placed (base.sub i) <$> Figure.view b.options b.boxOf el)
    (r.mapError .deferred) at hdrawn
  cases hv : Figure.view b.options b.boxOf el with
  | ok s =>
    rw [hv] at hdrawn
    cases r with
    | error why => cases hdrawn
    | ok x =>
      change Drawn el b a (.ok (s.placed (base.sub i))) (.ok x) at hdrawn
      cases hdrawn with
      | settled _ hd => exact .drawn s hv rfl hd
  | error f =>
    rw [hv] at hdrawn
    cases r with
    | ok x => cases hdrawn
    | error why =>
      change Drawn el b a (.error f) (.error (.deferred why)) at hdrawn
      cases hdrawn with
      | waits v _ hd => exact .waits ⟨v, hv⟩ rfl hd
      | fails _ hg => exact absurd rfl (hg why)

theorem keepsScope_shapes (hscope : scope.defaults = []) :
    KeepsScope (drawNode (drawElement turns (levels + 1))) (childless els) base scope := by
  intro k hk hs
  obtain ⟨el, -, hout⟩ := hk.outcome hels (by rw [hs, hscope])
  cases hout with
  | drawn s _ _ hd =>
    have hrecord : (k.before.record (s.placed (base.sub k.index))).scope = k.before.scope := by
      rw [Context.record_eq]
    exact (congrArg Context.scope hd :).trans (hrecord.trans hs)
  | waits _ _ hd => exact (congrArg Context.scope hd :).trans hs

theorem core_of_waiting (hscope : scope.defaults = []) (k : Call)
    (hk : k.Made (drawNode (drawElement turns (levels + 1))) (childless els) base)
    (hs : k.before.scope = scope) (hnone : k.drawing? = none) : k.after.core = k.before.core := by
  obtain ⟨el, -, hout⟩ := hk.outcome hels (by rw [hs, hscope])
  cases hout with
  | drawn s _ hr _ =>
    rw [Call.drawing?, hr] at hnone
    cases hnone
  | waits _ _ hd => exact hd

theorem ids_ne {i j : Nat} (hij : i ≠ j) {a b : Element} (hi : els[i]? = some a) (hj : els[j]? = some b)
    (ha : a.id ≠ "") : a.id ≠ b.id := by
  obtain ⟨hil, rfl⟩ := List.getElem?_eq_some_iff.1 hi
  obtain ⟨hjl, rfl⟩ := List.getElem?_eq_some_iff.1 hj
  have hids := List.pairwise_iff_getElem.1 hels.ids
  rcases Nat.lt_or_gt_of_ne hij with hlt | hlt
  · exact hids i j hil hjl hlt ha
  · intro heq
    exact hids j i hjl hil hlt (heq ▸ ha) heq.symm

/-- What is resolved stays so, since no shape that is drawn was resolved before. -/
theorem Chain.within {c d : Context} {calls : List Call}
    (h : Chain (drawNode (drawElement turns (levels + 1))) (childless els) base c calls d)
    (hs : ∀ k ∈ calls, k.before.scope.defaults = []) (hnodup : ((drawn calls).map Prod.fst).Nodup)
    (hfresh : ∀ p ∈ drawn calls, ∀ el, els[p.1]? = some el → el.id ≠ "" → c.recorded? el.id = none) :
    c.Within d ∧ ∀ k ∈ calls, k.before.Within d ∧ k.after.Within d := by
  induction h with
  | done hd => exact ⟨.of_core hd, by simp⟩
  | @call k c d calls hk hb _ ih =>
    obtain ⟨hsk, hs⟩ := List.forall_mem_cons.1 hs
    obtain ⟨el, hel, hout⟩ := hk.outcome hels hsk
    have hbefore : k.before.recorded? = c.recorded? := Context.recorded?_of_core hb
    -- The call keeps what is resolved, and what the later calls will register stays unknown.
    have hstep : c.Within k.after ∧ ((drawn calls).map Prod.fst).Nodup ∧
        ∀ p ∈ drawn calls, ∀ fl, els[p.1]? = some fl → fl.id ≠ "" → k.after.recorded? fl.id = none := by
      cases hout with
      | drawn s hview hr hd =>
        have hid : (s.placed (base.sub k.index)).element.id = el.id := (Figure.view_eq_ok hview).1
        have hcons : drawn (k :: calls) = (k.index, picture k.before.options el
            (s.placed (base.sub k.index))) :: drawn calls  :=
          List.filterMap_cons_some (by rw [Call.drawing?, hr]; rfl)
        rw [hcons] at hnodup hfresh
        obtain ⟨hfk, hfresh⟩ := List.forall_mem_cons.1 hfresh
        obtain ⟨hnew, hnodup⟩ := List.nodup_cons.1 hnodup
        have hafter : k.after.recorded? = (k.before.record (s.placed (base.sub k.index))).recorded? :=
          Context.recorded?_of_core hd
        refine ⟨fun id e he => ?_, hnodup, fun p hp fl hfl hne => ?_⟩
        · refine ⟨e, ?_, rfl⟩
          rw [hafter, Context.recorded?_record_of_ne, hbefore, he]
          rw [hid]
          rintro hne rfl
          rw [hfk el hel hne] at he
          cases he
        · have hindex : p.1 ≠ k.index := fun heq => hnew (heq ▸ List.mem_map.2 ⟨p, hp, rfl⟩)
          rw [hafter, Context.recorded?_record_of_ne, hbefore]
          · exact hfresh p hp fl hfl hne
          · rw [hid]
            exact fun _ => ids_ne hels hindex hfl hel hne
      | waits _ hr hd =>
        have hcons : drawn (k :: calls) = drawn calls  :=
          List.filterMap_cons_none (by rw [hr]; rfl)
        rw [hcons] at hnodup hfresh
        have hafter : k.after.recorded? = c.recorded? := (Context.recorded?_of_core hd).trans hbefore
        refine ⟨.of_core (hd.trans hb), hnodup, fun p hp fl hfl hne => ?_⟩
        rw [hafter]
        exact hfresh p hp fl hfl hne
    obtain ⟨hfirst, hrest⟩ := ih hs hstep.2.1 hstep.2.2
    have hc : c.Within d := hstep.1.trans hfirst
    exact ⟨hc, List.forall_mem_cons.2 ⟨⟨(Context.Within.of_core hb.symm).trans hc, hfirst⟩, hrest⟩⟩

theorem Chain.options {c d : Context} {calls : List Call}
    (h : Chain (drawNode (drawElement turns (levels + 1))) (childless els) base c calls d)
    (hs : ∀ k ∈ calls, k.before.scope.defaults = []) :
    d.options = c.options ∧ ∀ k ∈ calls, k.before.options = c.options := by
  induction h with
  | done hd => exact ⟨(congrArg Context.options hd :), by simp⟩
  | @call k c d calls hk hb _ ih =>
    obtain ⟨hsk, hs⟩ := List.forall_mem_cons.1 hs
    obtain ⟨el, -, hout⟩ := hk.outcome hels hsk
    have hbefore : k.before.options = c.options := (congrArg Context.options hb :)
    have hafter : k.after.options = c.options := by
      cases hout with
      | drawn s _ _ hd =>
        have hrecord : (k.before.record (s.placed (base.sub k.index))).options = k.before.options := by
          rw [Context.record_eq]
        exact (congrArg Context.options hd :).trans (hrecord.trans hbefore)
      | waits _ _ hd => exact (congrArg Context.options hd :).trans hbefore
    obtain ⟨hd, hall⟩ := ih hs
    exact ⟨hd.trans hafter, List.forall_mem_cons.2 ⟨hbefore, fun k hk => (hall k hk).trans hafter⟩⟩

/-- Whatever is drawn is in every closed set, if what is resolved before is. -/
theorem Chain.mem_of_closed {members : Set Nat} (hclosed : Closed els members) {c d : Context}
    {calls : List Call}
    (h : Chain (drawNode (drawElement turns (levels + 1))) (childless els) base c calls d)
    (hs : ∀ k ∈ calls, k.before.scope.defaults = [])
    (hknown : ∀ id e, c.recorded? id = some e → ∃ j fl, els[j]? = some fl ∧ j ∈ members ∧ fl.id = id) :
    ∀ p ∈ drawn calls, p.1 ∈ members := by
  induction h with
  | done => simp [drawn]
  | @call k c d calls hk hb _ ih =>
    obtain ⟨hsk, hs⟩ := List.forall_mem_cons.1 hs
    obtain ⟨el, hel, hout⟩ := hk.outcome hels hsk
    have hbefore : k.before.recorded? = c.recorded? := Context.recorded?_of_core hb
    cases hout with
    | drawn s hview hr hd =>
      have hid : (s.placed (base.sub k.index)).element.id = el.id := (Figure.view_eq_ok hview).1
      have hmem : k.index ∈ members := by
        refine hclosed k.index el hel fun t ht => ?_
        obtain ⟨b, hb⟩ := (Figure.view_eq_ok hview).2 t ht
        have hne := (hels.literal el (List.mem_of_getElem? hel)).references_ne t ht
        obtain ⟨id, e, hid, rfl, he⟩ := Context.boxOf_eq_ok hne hb
        obtain ⟨j, fl, hfl, hj, rfl⟩ := hknown id e (by rw [← hbefore, he])
        exact ⟨j, fl, hfl, hj, hid, rfl⟩
      have hcons : drawn (k :: calls) = (k.index, picture k.before.options el
          (s.placed (base.sub k.index))) :: drawn calls :=
        List.filterMap_cons_some (by rw [Call.drawing?, hr]; rfl)
      rw [hcons]
      refine List.forall_mem_cons.2 ⟨hmem, ih hs fun id e he => ?_⟩
      rw [Context.recorded?_of_core hd] at he
      by_cases heq : id = el.id
      · exact ⟨k.index, el, hel, hmem, heq.symm⟩
      · rw [Context.recorded?_record_of_ne _ (fun _ => hid ▸ heq), hbefore] at he
        exact hknown id e he
    | waits _ hr hd =>
      have hcons : drawn (k :: calls) = drawn calls :=
        List.filterMap_cons_none (by rw [hr]; rfl)
      rw [hcons]
      refine ih hs fun id e he => hknown id e ?_
      rw [← hbefore, ← Context.recorded?_of_core hd, he]

/-- A shape that is not left was drawn by a call. -/
theorem Trace.Runs.exists_drawn {t : Trace} {c d : Context} {left : List Nat}
    (h : t.Runs (drawNode (drawElement turns (levels + 1))) (childless els) base c left d)
    (hs : ∀ k ∈ t.calls, k.before.scope.defaults = []) {i : Nat} {el : Element} (hel : els[i]? = some el)
    (hi : i ∉ left) :
    ∃ k ∈ t.calls, k.index = i ∧ k.drawing? = some (t.drawing i) ∧
      ∃ s, Figure.view k.before.options k.before.boxOf el = .ok s ∧
        t.drawing i = picture k.before.options el (s.placed (base.sub i)) ∧
        k.after.core = (k.before.record (s.placed (base.sub i))).core := by
  have hlt : i < (childless els).length := by
    rw [childless, List.length_map]
    exact (List.getElem?_eq_some_iff.1 hel).1
  obtain ⟨k, hk, hx⟩ := List.mem_filterMap.1 (h.mem_drawn hlt hi)
  obtain ⟨x, hx, hpair⟩ := Option.map_eq_some_iff.1 hx
  obtain ⟨rfl, rfl⟩ := Prod.mk.inj hpair
  obtain ⟨fl, hfl, hout⟩ := (h.made k hk).outcome hels (hs k hk)
  obtain rfl : fl = el := Option.some.inj (hfl.symm.trans hel)
  refine ⟨k, hk, rfl, hx, ?_⟩
  cases hout with
  | waits _ hr =>
    rw [hr] at hx
    cases hx
  | drawn s hview hr hd =>
    rw [Call.drawing?, hr] at hx
    exact ⟨s, hview, (Option.some.inj hx).symm, hd⟩

/-- In all contexts of a run no more is resolved than in the end, and the options are the same. -/
theorem Trace.Runs.contexts {t : Trace} {c d : Context} {left : List Nat}
    (h : t.Runs (drawNode (drawElement turns (levels + 1))) (childless els) base c left d)
    (hc : c.scope.defaults = []) (hempty : ∀ id, c.recorded? id = none) :
    Chain (drawNode (drawElement turns (levels + 1))) (childless els) base c t.calls d ∧
      d.options = c.options ∧ ∀ k ∈ t.calls, k.before.scope.defaults = [] ∧
        k.before.options = c.options ∧ k.before.Within d ∧ k.after.Within d := by
  obtain ⟨hchain, hscopes, -⟩ := h.chain (keepsScope_shapes hels hc) rfl (core_of_waiting hels hc)
  have hs : ∀ k ∈ t.calls, k.before.scope.defaults = [] := fun k hk => by rw [hscopes k hk, hc]
  have hnodup : ((drawn t.calls).map Prod.fst).Nodup :=
    (List.nodup_append.1 (h.perm_range.nodup_iff.2 List.nodup_range)).1
  have hwithin := (hchain.within hels hs hnodup fun _ _ fl _ _ => hempty fl.id).2
  obtain ⟨hoptions, hall⟩ := hchain.options hels hs
  exact ⟨hchain, hoptions, fun k hk => ⟨hs k hk, hall k hk, hwithin k hk⟩⟩

/-- What a run over shapes leaves: every shape is settled by what is resolved in the end, and recorded if it has an
identifier, or it waits for what is not resolved. -/
theorem Trace.Runs.settled_or_waits {t : Trace} {c d : Context} {left : List Nat}
    (h : t.Runs (drawNode (drawElement turns (levels + 1))) (childless els) base c left d)
    (hc : c.scope.defaults = []) (hempty : ∀ id, c.recorded? id = none) {i : Nat} {el : Element}
    (hel : els[i]? = some el) :
    (i ∉ left → ∃ s, Figure.view c.options d.boxOf el = .ok s ∧
      t.drawing i = picture c.options el (s.placed (base.sub i)) ∧
      (el.id ≠ "" → ∃ e, d.recorded? el.id = some e ∧ e.box = s.box)) ∧
    (i ∈ left → Waits (Figure.view c.options d.boxOf el)) := by
  obtain ⟨-, hoptions, hall⟩ := h.contexts hels hc hempty
  have hne := (hels.literal el (List.mem_of_getElem? hel)).references_ne
  constructor
  · intro hi
    obtain ⟨k, hk, rfl, -, s, hview, hx, hd⟩ := h.exists_drawn hels (fun k hk => (hall k hk).1) hel hi
    obtain ⟨-, ho, hbefore, hafter⟩ := hall k hk
    rw [ho] at hview hx
    refine ⟨s, ?_, hx, fun hid => ?_⟩
    · exact (Figure.below_view fun u hu => Context.below_boxOf hbefore (hne u hu)).eq_ok hview
    · have hself : (s.placed (base.sub k.index)).element.id = el.id := (Figure.view_eq_ok hview).1
      refine hafter _ ⟨(s.placed (base.sub k.index)).element, s.box⟩ ?_
      rw [Context.recorded?_of_core hd, ← hself, Context.recorded?_record_self _ (hself ▸ hid)]
      rfl
  · intro hi
    obtain ⟨-, -, hleft⟩ := h.chain (keepsScope_shapes hels hc) rfl (core_of_waiting hels hc)
    obtain ⟨k, hk, hscope, rfl, hnone, hcore⟩ := hleft i hi
    obtain ⟨fl, hfl, hout⟩ := hk.outcome hels (by rw [hscope, hc])
    obtain rfl : fl = el := Option.some.inj (hfl.symm.trans hel)
    have ho : k.before.options = c.options := (congrArg Context.options hcore :).trans hoptions
    cases hout with
    | drawn s _ hr =>
      rw [Call.drawing?, hr] at hnone
      cases hnone
    | waits hw =>
      rw [ho] at hw
      refine Below.waits_of_waits (Figure.below_view fun u hu => ?_) hw
      exact Context.below_boxOf (.of_core hcore) (hne u hu)

/-- The shapes that a run settles are the least set closed under references. -/
theorem Trace.Runs.isLeast {t : Trace} {c d : Context} {left : List Nat}
    (h : t.Runs (drawNode (drawElement turns (levels + 1))) (childless els) base c left d)
    (hc : c.scope.defaults = []) (hempty : ∀ id, c.recorded? id = none) :
    IsLeast { members | Closed els members } { i | i < els.length ∧ i ∉ left } := by
  obtain ⟨hchain, -, hcontexts⟩ := h.contexts hels hc hempty
  constructor
  · intro i el hel hall
    refine ⟨(List.getElem?_eq_some_iff.1 hel).1, fun hi => ?_⟩
    -- A shape that is left waits for a reference, which is not resolved.
    obtain ⟨u, hu, hw⟩ := Figure.waits_view ((h.settled_or_waits hels hc hempty hel).2 hi)
    obtain ⟨j, fl, hfl, hj, hid, rfl⟩ := hall u hu
    obtain ⟨s, -, -, hentry⟩ := (h.settled_or_waits hels hc hempty hfl).1 hj.2
    obtain ⟨e, he, -⟩ := hentry hid
    have hne := (hels.literal el (List.mem_of_getElem? hel)).references_ne _ hu
    obtain ⟨id, -, heq, hnone⟩ := Context.waits_boxOf hne hw
    have hsame : id = fl.id := by
      rw [← String.toList_inj]
      simpa using (congrArg String.toList heq).symm
    rw [hsame, he] at hnone
    cases hnone
  · intro members hclosed i hi
    have hlt : i < (childless els).length := by rw [childless, List.length_map]; exact hi.1
    refine hchain.mem_of_closed hels hclosed (fun k hk => (hcontexts k hk).1) (fun id e he => ?_) _
      (h.mem_drawn hlt hi.2)
    rw [hempty id] at he
    cases he

end Shapes

end Siblings

end DiagramMarkup
