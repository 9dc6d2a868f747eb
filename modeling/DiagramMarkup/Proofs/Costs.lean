import Mathlib.Data.List.Chain
import DiagramMarkup.Proofs.Searches

/-!
# What paths cost

The path that the search over a graph finds is as cheap as any other, up to the tolerance for each of its edges. The
numbers are exact.

1. A settled node has offered its neighbours the way through itself (`Relaxed`), so behind the search no walk to the
   goal is shorter than the distance of the goal (`Finished.le_of_walk`), although the search ends with nodes that are
   not settled.
2. The way back runs over settled nodes, since an edge from a node that is no nearer than the goal cannot be tight.
   Along such edges the cost is the difference of the distances, up to the tolerance for each edge
   (`exists_walk_of_trail`).
3. So what is found is cheapest (`exists_walk_of_shortest?`), and so is every part of it: no edge between two of its
   nodes is cheaper than the way between them (`Finished.le_cost_of_trail`).
-/

namespace DiagramMarkup.Route.Graph

open Scalar

/-! ## Walks -/

/-- The nodes lead from `u` to the goal along edges that cost `k` together. -/
inductive Walk {α : Type} [Scalar α] (g : Graph α) (goal : Nat) : (u : Nat) → (nodes : List Nat) → (k : α) → Prop
  | done (h : goal < g.size) : Walk g goal goal [goal] zero
  | step {u v : Nat} {nodes : List Nat} {c k : α} (hu : u < g.size) (hc : g.cost? u v = some c)
    (h : Walk g goal v nodes k) : Walk g goal u (u :: nodes) (c + k)

variable {K : Type} [Field K] [LinearOrder K] [FloorRing K] [Elementary K] {g : Graph K} {labels : List (Label K)}
  {start goal u v : Nat} {d e c k : K} {nodes : List Nat}

theorem Walk.lt (h : g.Walk goal u nodes k) : u < g.size := by
  cases h with
  | done h => exact h
  | step hu _ _ => exact hu

theorem Walk.reaches (h : g.Walk goal u nodes k) : Relation.ReflTransGen g.Edge u goal := by
  induction h with
  | done _ => exact .refl
  | step hu hc h ih => exact .head ⟨hu, h.lt, by rw [hc]; rfl⟩ ih

theorem Walk.head? (h : g.Walk goal u nodes k) : nodes.head? = some u := by
  cases h with
  | done _ => rfl
  | step _ _ _ => rfl

theorem Walk.exists_step {rest : List Nat} (h : g.Walk goal u (u :: v :: rest) k) :
    ∃ c k', g.cost? u v = some c ∧ g.Walk goal v (v :: rest) k' ∧ k = c + k' := by
  cases h with
  | step _ hc h =>
    obtain rfl : v = _ := Option.some.inj h.head?
    exact ⟨_, _, hc, h, rfl⟩

/-! ## Offers to neighbours -/

/-- A settled node has offered its neighbours the way through itself. -/
def Relaxed (g : Graph K) (labels : List (Label K)) : Prop :=
  ∀ ⦃u v d c⦄, settledOf labels u → distOf labels u = some d → g.cost? u v = some c → v < labels.length →
    ∃ e ≤ d + c, distOf labels v = some e

theorem relaxed_initial : g.Relaxed (g.initial start) := by
  intro u v d c hu
  rw [settledOf_initial] at hu
  cases hu

/-- The node that is settled offers its neighbours the way through itself. -/
theorem exists_le_of_cost? (hc : g.cost? u v = some c) (hv : v < labels.length) :
    ∃ e ≤ d + c, distOf (g.settle u d labels) v = some e := by
  rw [distOf_settle u d hv, hc]
  simp only [better]
  split
  · exact ⟨d + c, le_refl _, if_pos (isFinite_eq (d + c))⟩
  · next b _ =>
    split
    · exact ⟨d + c, le_refl _, rfl⟩
    · next hlt => exact ⟨b, not_lt.1 hlt, rfl⟩

/-- A distance only gets shorter. -/
theorem exists_le_of_distOf (h : distOf labels v = some e) : ∃ b ≤ e, distOf (g.settle u d labels) v = some b := by
  rw [distOf_settle u d (lt_of_distOf h), h]
  cases g.cost? u v with
  | none => exact ⟨e, le_refl e, rfl⟩
  | some c =>
    simp only [better]
    split
    · next hlt => exact ⟨d + c, le_of_lt hlt, rfl⟩
    · exact ⟨e, le_refl e, rfl⟩

variable [IsStrictOrderedRing K]

theorem Relaxed.settle (hr : g.Relaxed labels) (h : g.Sound start labels)
    (hpos : ∀ {u v c}, g.cost? u v = some c → 0 < c) (near : Nearest labels u d) :
    g.Relaxed (g.settle u d labels) := by
  intro a v da c ha hda hc hv
  rw [length_settle] at hv
  have hal : a < labels.length := by simpa [length_settle] using lt_of_distOf hda
  rw [settledOf_settle u d hal, Bool.or_eq_true, beq_iff_eq] at ha
  rcases ha with ha | rfl
  · -- What was settled before keeps its distance, and what it offered is not taken back.
    obtain ⟨b, hb⟩ := h.known ha
    have hkeep := distOf_settle_of_le (g := g) (u := u) hpos hb (h.order ha hb near.waits)
    rw [hda] at hkeep
    cases hkeep
    obtain ⟨e, hle, he⟩ := hr ha hb hc hv
    obtain ⟨e', hle', he'⟩ := exists_le_of_distOf (g := g) (u := u) (d := d) he
    exact ⟨e', hle'.trans hle, he'⟩
  · have hkeep := distOf_settle_of_le (g := g) (u := a) hpos near.waits.1 (le_refl d)
    rw [hda] at hkeep
    cases hkeep
    exact exists_le_of_cost? hc hv

omit [IsStrictOrderedRing K] in
/-- What settling the nearest node keeps is kept by the search. -/
theorem search_induction {P : List (Label K) → Prop}
    (hstep : ∀ {labels u d}, P labels → Nearest labels u d → P (g.settle u d labels)) :
    ∀ {fuel : Nat} {labels : List (Label K)}, P labels → P (g.search goal fuel labels)
  | 0, _, h => h
  | fuel + 1, labels, h => by
    unfold search
    split
    · exact h
    · next u d hn =>
      split
      · exact h
      · exact search_induction hstep (hstep h ((nearest?_spec labels).2 u d hn))

/-! ## Behind the search -/

/-- The labels behind the search: either the goal is the nearest of the nodes that wait, or none waits. -/
structure Finished (g : Graph K) (start goal : Nat) (labels : List (Label K)) : Prop extends Sound g start labels where
  offered : g.Relaxed labels
  ended : (∀ v e, ¬ Waits labels v e) ∨ ∃ d, Nearest labels goal d

theorem finished_search (hpos : ∀ {u v c}, g.cost? u v = some c → 0 < c) (hstart : start < g.size) :
    g.Finished start goal (g.search goal (g.size + 1) (g.initial start)) := by
  have hfuel : (unsettled (g.initial start)).card < g.size + 1 := by
    rw [← (sound_initial hstart).length]
    exact Nat.lt_succ_of_le (card_unsettled_le _)
  have hrelaxed : g.Sound start (g.search goal (g.size + 1) (g.initial start)) ∧
      g.Relaxed (g.search goal (g.size + 1) (g.initial start)) :=
    search_induction (P := fun labels => g.Sound start labels ∧ g.Relaxed labels)
      (fun h near => ⟨h.1.settle hpos near, h.2.settle h.1 hpos near⟩) ⟨sound_initial hstart, relaxed_initial⟩
  exact ⟨hrelaxed.1, hrelaxed.2, (sound_search hpos (sound_initial hstart) hfuel).2⟩

theorem Walk.nonneg (hpos : ∀ {u v c}, g.cost? u v = some c → 0 < c) (h : g.Walk goal u nodes k) : 0 ≤ k := by
  induction h with
  | done _ => exact zero_eq.ge
  | step _ hc _ ih => exact add_nonneg (hpos hc).le ih

omit [IsStrictOrderedRing K] in
/-- A node that is known is settled, or no nearer than the goal. -/
theorem Finished.settled_or_le (h : g.Finished start goal labels) (hd : distOf labels u = some d) :
    settledOf labels u ∨ ∃ e ≤ d, distOf labels goal = some e := by
  by_cases hs : settledOf labels u
  · exact .inl hs
  · have hu : Waits labels u d := ⟨hd, by simpa using hs⟩
    rcases h.ended with hnone | ⟨e, near⟩
    · exact absurd hu (hnone u d)
    · exact .inr ⟨e, near.le hu, near.waits.1⟩

/-- No walk from a known node to the goal is shorter than the distances say. -/
theorem Finished.le_of_walk (h : g.Finished start goal labels) (hpos : ∀ {u v c}, g.cost? u v = some c → 0 < c)
    (hw : g.Walk goal u nodes k) (hd : distOf labels u = some d) : ∃ e ≤ d + k, distOf labels goal = some e := by
  induction hw generalizing d with
  | done _ => exact ⟨d, by rw [zero_eq, add_zero], hd⟩
  | @step u v nodes c k hu hc hw ih =>
    rcases h.settled_or_le hd with hs | ⟨e, hle, he⟩
    · obtain ⟨b, hb, hdist⟩ := h.offered hs hd hc (h.length ▸ hw.lt)
      obtain ⟨e, hle, he⟩ := ih hdist
      exact ⟨e, by linarith, he⟩
    · have := hpos hc
      have := hw.nonneg hpos
      exact ⟨e, by linarith, he⟩

/-! ## The way back -/

/-- The edge from a settled node accounts for the distance of the next. -/
def Trails (g : Graph K) (labels : List (Label K)) (u v : Nat) : Prop := settledOf labels u ∧ g.isTight labels v u

/-- If all edges cost at least one, a tight edge leads away from the start. -/
theorem lt_of_isTight (hone : ∀ {u v c}, g.cost? u v = some c → 1 ≤ c) (h : g.isTight labels v u = true)
    (he : distOf labels v = some e) : ∃ d < e, distOf labels u = some d := by
  obtain ⟨d, c, e', hd, hc, he', htight⟩ := isTight_iff.1 h
  rw [he] at he'
  cases he'
  have := hone hc
  have := (abs_lt.1 htight).2
  have := tolerance_lt_one (K := K)
  exact ⟨d, by linarith, hd⟩

/-- From a node that is no further away than the goal, the way back runs over settled nodes. -/
theorem Finished.isChain_trails (h : g.Finished start goal labels)
    (hone : ∀ {u v c}, g.cost? u v = some c → 1 ≤ c) {b : K} (hb : distOf labels goal = some b) :
    ∀ {fuel v : Nat} {e : K} {path nodes : List Nat}, g.walkBack labels start fuel v path = some nodes →
      distOf labels v = some e → e ≤ b → (v :: path).IsChain (g.Trails labels) → nodes.IsChain (g.Trails labels)
  | 0, _, _, _, _, hback, _, _, _ => nomatch hback
  | fuel + 1, v, e, path, nodes, hback, he, hle, hpath => by
    unfold walkBack at hback
    split at hback
    · cases hback
      exact hpath
    · split at hback
      · cases hback
      · next u hu =>
        have htight : g.isTight labels v u := List.find?_some hu
        obtain ⟨d, hlt, hd⟩ := lt_of_isTight hone htight he
        have hs : settledOf labels u := by
          refine (h.settled_or_le hd).resolve_right ?_
          rintro ⟨b', hle', hb'⟩
          rw [hb] at hb'
          cases hb'
          exact absurd (hlt.trans_le hle) (not_lt.2 hle')
        exact h.isChain_trails hone hb hback hd (hlt.le.trans hle) (List.isChain_cons_cons.2 ⟨⟨hs, htight⟩, hpath⟩)

/-- Along the way back, the cost is the difference of the distances, up to the tolerance for each edge. -/
theorem Finished.exists_walk_of_trail (h : g.Finished start goal labels) {w : Nat} :
    ∀ {u : Nat} {rest : List Nat} {d : K}, (u :: rest).IsChain (g.Trails labels) → (u :: rest).getLast? = some w →
      distOf labels u = some d →
        ∃ e k, distOf labels w = some e ∧ g.Walk w u (u :: rest) k ∧ k ≤ e - d + rest.length * tolerance
  | u, [], d, _, hlast, hd => by
    obtain rfl : u = w := Option.some.inj hlast
    exact ⟨d, zero, hd, .done (h.length ▸ lt_of_distOf hd), by simp⟩
  | u, v :: rest, d, htrail, hlast, hd => by
    obtain ⟨⟨-, htight⟩, hrest⟩ := List.isChain_cons_cons.1 htrail
    obtain ⟨d', c, b, hd', hc, hb, htol⟩ := isTight_iff.1 htight
    rw [hd] at hd'
    cases hd'
    obtain ⟨e, k, he, hk, hle⟩ := h.exists_walk_of_trail hrest (by rwa [List.getLast?_cons_cons] at hlast) hb
    refine ⟨e, c + k, he, .step (h.length ▸ lt_of_distOf hd) hc hk, ?_⟩
    have hstep : c ≤ b - d + tolerance := by linarith [(abs_lt.1 htol).2]
    have hlen : (((v :: rest).length : Nat) : K) = rest.length + 1 := by simp
    calc
      c + k ≤ b - d + tolerance + (e - b + rest.length * tolerance) := add_le_add hstep hle
      _ = e - d + (v :: rest).length * tolerance := by rw [hlen]; ring

/-- An edge between two nodes of the way back is no cheaper than the way between them, up to the tolerance. -/
theorem Finished.le_cost_of_trail (h : g.Finished start goal labels) {w : Nat} {rest : List Nat}
    (htrail : (u :: v :: rest).IsChain (g.Trails labels)) (hlast : (u :: v :: rest).getLast? = some w)
    (hc : g.cost? u w = some c) :
    ∃ k, g.Walk w u (u :: v :: rest) k ∧ k ≤ c + (v :: rest).length * tolerance := by
  have hs : settledOf labels u := (List.isChain_cons_cons.1 htrail).1.1
  obtain ⟨d, hd⟩ := h.known hs
  obtain ⟨e, k, he, hk, hle⟩ := h.exists_walk_of_trail htrail hlast hd
  obtain ⟨e', hoff, he'⟩ := h.offered hs hd hc (lt_of_distOf he)
  rw [he] at he'
  cases he'
  exact ⟨k, hk, by linarith⟩

/-! ## What is found -/

omit [IsStrictOrderedRing K] in
/-- More steps than are needed change nothing. -/
theorem walkBack_of_le : ∀ {fuel fuel' v : Nat} {path : List Nat}, fuel ≤ fuel' →
    g.walkBack labels start fuel v path = some nodes → g.walkBack labels start fuel' v path = some nodes
  | 0, _, _, _, _, h => nomatch h
  | fuel + 1, fuel' + 1, v, path, hle, h => by
    unfold walkBack at h ⊢
    split
    · next hv => rwa [if_pos hv] at h
    · next hv =>
      rw [if_neg hv] at h
      split
      · next hnone => rwa [hnone] at h
      · next u hu =>
        rw [hu] at h
        exact walkBack_of_le (Nat.le_of_succ_le_succ hle) h

/-- A path is found unless the goal cannot be reached. -/
theorem shortest?_eq_none_iff (hone : ∀ {u v c}, g.cost? u v = some c → 1 ≤ c) (hstart : start < g.size)
    (hgoal : goal < g.size) : g.shortest? start goal = none ↔ ¬ Relation.ReflTransGen g.Edge start goal := by
  constructor
  · intro hnone hreach
    have hsome := isSome_shortest? hone hstart hreach
    rw [hnone] at hsome
    cases hsome
  · intro hreach
    by_contra hsome
    obtain ⟨nodes, hnodes⟩ := Option.ne_none_iff_exists'.1 hsome
    obtain ⟨hchain, hhead, hlast⟩ := isChain_of_shortest? hnodes hgoal
    obtain ⟨rest, rfl⟩ := List.head?_eq_some_iff.1 hhead
    have hend : (start :: rest).getLast (List.cons_ne_nil start rest) = goal :=
      Option.some.inj ((List.getLast?_eq_some_getLast _).symm.trans hlast)
    exact hreach (List.relationReflTransGen_of_exists_isChain_cons rest hchain hend)

/-- What is found is the way back from the goal. -/
theorem exists_trail_of_shortest? (hone : ∀ {u v c}, g.cost? u v = some c → 1 ≤ c) (hstart : start < g.size)
    (h : g.shortest? start goal = some nodes) :
    ∃ labels, g.Finished start goal labels ∧ nodes.IsChain (g.Trails labels) := by
  have hpos : ∀ {u v c}, g.cost? u v = some c → 0 < c := fun hc => zero_lt_one.trans_le (hone hc)
  refine ⟨_, finished_search hpos hstart, ?_⟩
  unfold shortest? at h
  simp only at h
  split at h
  · cases h
  · next b hb => exact (finished_search hpos hstart).isChain_trails hone hb h hb (le_refl b) (.singleton goal)

/-- What is found is as cheap as any other path, up to the tolerance for each of its edges. -/
theorem exists_walk_of_shortest? (hone : ∀ {u v c}, g.cost? u v = some c → 1 ≤ c) (hstart : start < g.size)
    (hgoal : goal < g.size) (h : g.shortest? start goal = some nodes) :
    ∃ k, g.Walk goal start nodes k ∧
      ∀ nodes' k', g.Walk goal start nodes' k' → k ≤ k' + nodes.tail.length * tolerance := by
  have hpos : ∀ {u v c}, g.cost? u v = some c → 0 < c := fun hc => zero_lt_one.trans_le (hone hc)
  obtain ⟨labels, hdone, htrail⟩ := exists_trail_of_shortest? hone hstart h
  obtain ⟨-, hhead, hlast⟩ := isChain_of_shortest? h hgoal
  obtain ⟨rest, rfl⟩ := List.head?_eq_some_iff.1 hhead
  obtain ⟨e, k, he, hk, hle⟩ := hdone.exists_walk_of_trail htrail hlast hdone.origin
  refine ⟨k, hk, fun nodes' k' hk' => ?_⟩
  obtain ⟨e', hshort, he'⟩ := hdone.le_of_walk hpos hk' hdone.origin
  rw [he] at he'
  cases he'
  show k ≤ k' + rest.length * tolerance
  linarith

/-- The way back ends after no more steps than there are nodes. -/
theorem walkBack_eq_shortest? (hone : ∀ {u v c}, g.cost? u v = some c → 1 ≤ c) (hstart : start < g.size)
    (hgoal : start ≠ goal) {fuel : Nat} (hfuel : g.size < fuel) :
    g.walkBack (g.search goal (g.size + 1) (g.initial start)) start fuel goal [] = g.shortest? start goal := by
  have hpos : ∀ {u v c}, g.cost? u v = some c → 0 < c := fun hc => zero_lt_one.trans_le (hone hc)
  have hdone : g.Finished start goal (g.search goal (g.size + 1) (g.initial start)) := finished_search hpos hstart
  unfold shortest?
  generalize g.search goal (g.size + 1) (g.initial start) = labels at hdone ⊢
  simp only
  cases hb : distOf labels goal with
  | none =>
    obtain ⟨fuel, rfl⟩ : ∃ f, fuel = f + 1 := ⟨fuel - 1, by omega⟩
    have hfar : ∀ u, g.isTight labels goal u = false := by
      intro u
      rw [← Bool.not_eq_true, isTight_iff]
      rintro ⟨d, c, e, -, -, he, -⟩
      rw [hb] at he
      cases he
    unfold walkBack
    rw [if_neg (by simpa using hgoal.symm), List.find?_eq_none.2 (fun u _ => by simp [hfar u])]
  | some b =>
    have hsome : (g.walkBack labels start (g.size + 1) goal []).isSome := by
      refine hdone.isSome_walkBack hone hb ?_
      rw [← hdone.length]
      exact Nat.lt_succ_of_le (card_below_le labels b)
    obtain ⟨nodes, hnodes⟩ := Option.isSome_iff_exists.1 hsome
    rw [hnodes]
    exact walkBack_of_le hfuel hnodes

end DiagramMarkup.Route.Graph
