import Mathlib.Data.Finset.Card
import Mathlib.Data.List.Induction
import Mathlib.Logic.Relation
import Mathlib.Tactic.Linarith
import DiagramMarkup.Proofs.Exact
import DiagramMarkup.Route.Search

/-!
# What the search finds

The search over a graph settles nodes and walks back from the goal.

1. What is found leads from the start to the goal along edges, whatever the numbers are (`isChain_of_shortest?`).
2. With exact numbers and edges that cost something, the distances stay in order while nodes are settled: a settled node
   is no further away than any other, its neighbours are known, and every distance is accounted for by an edge from a
   settled node (`Sound`).
3. So the search goes on until the goal is nearest or everything that can be reached is settled. If all edges cost at
   least one, the walk back along tight edges comes closer to the start with every step, and it arrives
   (`isSome_shortest?`).
-/

namespace DiagramMarkup.Route.Graph

open Scalar

section Walks

variable {α : Type} {labels : List (Label α)}

/-! ## Labels -/

/-- Is the node settled? -/
def settledOf (labels : List (Label α)) (v : Nat) : Bool := labels[v]?.any Label.settled

theorem lt_of_distOf {v : Nat} {d : α} (h : distOf labels v = some d) : v < labels.length := by
  by_contra hv
  rw [distOf, List.getElem?_eq_none (by omega)] at h
  cases h

theorem getElem?_concat (labels : List (Label α)) (l : Label α) (v : Nat) :
    (labels ++ [l])[v]? = if v = labels.length then some l else labels[v]? := by
  rcases Nat.lt_trichotomy v labels.length with h | rfl | h
  · rw [List.getElem?_append_left h, if_neg h.ne]
  · rw [List.getElem?_concat_length, if_pos rfl]
  · rw [if_neg h.ne', List.getElem?_eq_none (by simp; omega), List.getElem?_eq_none h.le]

theorem distOf_concat (labels : List (Label α)) (l : Label α) (v : Nat) :
    distOf (labels ++ [l]) v = if v = labels.length then l.dist else distOf labels v := by
  unfold distOf
  rw [getElem?_concat]
  split <;> rfl

theorem settledOf_concat (labels : List (Label α)) (l : Label α) (v : Nat) :
    settledOf (labels ++ [l]) v = if v = labels.length then l.settled else settledOf labels v := by
  unfold settledOf
  rw [getElem?_concat]
  split <;> rfl

variable [Scalar α] {g : Graph α}

/-! ## Walks -/

/-- An edge leads from `u` to `v`. -/
def Edge (g : Graph α) (u v : Nat) : Prop := u < g.size ∧ v < g.size ∧ (g.cost? u v).isSome

theorem isSome_of_isTight {u v : Nat} (h : g.isTight labels v u) : (g.cost? u v).isSome := by
  unfold isTight at h
  split at h
  · next hc _ => rw [hc]; rfl
  · cases h

theorem isChain_of_walkBack {start : Nat} : ∀ {fuel v : Nat} {path nodes : List Nat},
    g.walkBack labels start fuel v path = some nodes → v < g.size → (v :: path).IsChain g.Edge →
      nodes.IsChain g.Edge ∧ nodes.head? = some start ∧ nodes.getLast? = (v :: path).getLast?
  | 0, _, _, _, h, _, _ => nomatch h
  | fuel + 1, v, path, nodes, h, hv, hpath => by
    unfold walkBack at h
    split at h
    · next hs =>
      cases h
      exact ⟨hpath, congrArg some (eq_of_beq hs), rfl⟩
    · split at h
      · cases h
      · next u hu =>
        have hsize : u < g.size := List.mem_range.1 (List.mem_of_find?_eq_some hu)
        have hedge : g.Edge u v := ⟨hsize, hv, isSome_of_isTight (List.find?_some hu)⟩
        obtain ⟨hnodes, hhead, hlast⟩ := isChain_of_walkBack h hsize (List.isChain_cons_cons.2 ⟨hedge, hpath⟩)
        exact ⟨hnodes, hhead, by rw [hlast, List.getLast?_cons_cons]⟩

/-- What is found leads from the start to the goal along edges. -/
theorem isChain_of_shortest? {start goal : Nat} {nodes : List Nat} (h : g.shortest? start goal = some nodes)
    (hgoal : goal < g.size) :
    nodes.IsChain g.Edge ∧ nodes.head? = some start ∧ nodes.getLast? = some goal := by
  unfold shortest? at h
  simp only at h
  split at h
  · cases h
  · exact isChain_of_walkBack h hgoal (.singleton goal)

/-! ## Steps of the search -/

theorem nearest?_concat (labels : List (Label α)) (l : Label α) :
    nearest? (labels ++ [l]) =
      match l.settled, l.dist, nearest? labels with
      | false, some d, none => some (labels.length, d)
      | false, some d, some (j, e) => if d < e then some (labels.length, d) else some (j, e)
      | _, _, best => best := by
  simp only [nearest?, List.zipIdx_append, List.foldl_append, List.zipIdx_singleton, Nat.zero_add]
  rfl

theorem length_settle (u : Nat) (d : α) : (g.settle u d labels).length = labels.length := by simp [settle]

theorem distOf_settle (u : Nat) (d : α) {v : Nat} (hv : v < labels.length) :
    distOf (g.settle u d labels) v =
      match g.cost? u v with
      | some c => better (distOf labels v) (d + c)
      | none => distOf labels v := by
  cases hc : g.cost? u v with
  | none => simp [distOf, settle, List.getElem?_eq_getElem hv, hc]
  | some c => simp [distOf, settle, List.getElem?_eq_getElem hv, hc]

theorem settledOf_settle (u : Nat) (d : α) {v : Nat} (hv : v < labels.length) :
    settledOf (g.settle u d labels) v = (settledOf labels v || v == u) := by
  simp [settledOf, settle, List.getElem?_eq_getElem hv]

end Walks

section Distances

variable {K : Type} [Field K] [LinearOrder K] [FloorRing K] [Elementary K] {g : Graph K} {labels : List (Label K)}
  {start goal u v : Nat} {d e : K}

/-! ## The nearest node -/

/-- The node is known and not settled. -/
def Waits (labels : List (Label K)) (v : Nat) (e : K) : Prop := distOf labels v = some e ∧ settledOf labels v = false

/-- The node is the nearest of those that are not settled. -/
structure Nearest (labels : List (Label K)) (u : Nat) (d : K) : Prop where
  waits : Waits labels u d
  le : ∀ {v e}, Waits labels v e → d ≤ e

omit [Field K] [LinearOrder K] [FloorRing K] [Elementary K] in
theorem waits_concat {l : Label K} :
    Waits (labels ++ [l]) v e ↔
      Waits labels v e ∨ v = labels.length ∧ l.dist = some e ∧ l.settled = false := by
  unfold Waits
  rw [distOf_concat, settledOf_concat]
  split
  · next hv =>
    subst hv
    simp only [true_and, iff_or_self, and_imp]
    exact fun h _ => absurd (lt_of_distOf h) (lt_irrefl _)
  · next hv => simp [hv]

omit [Field K] [LinearOrder K] [FloorRing K] [Elementary K] in
/-- A last node that does not wait changes nothing. -/
theorem waits_concat_idle {l : Label K} (hl : ∀ e, ¬ (l.dist = some e ∧ l.settled = false)) :
    Waits (labels ++ [l]) v e ↔ Waits labels v e := by
  rw [waits_concat, or_iff_left fun h => hl e h.2]

/-- A bound on the distances of the others and of the last node is one on all of them. -/
theorem le_of_waits_concat {l : Label K} {b : K} (hd : l.dist = some d) (hlast : b ≤ d)
    (hle : Waits labels v e → b ≤ e) (h : Waits (labels ++ [l]) v e) : b ≤ e := by
  rcases waits_concat.1 h with h | ⟨-, he, -⟩
  · exact hle h
  · rw [hd] at he
    cases he
    exact hlast

/-- The nearest node is found, and none only if no node waits. -/
theorem nearest?_spec (labels : List (Label K)) :
    (nearest? labels = none → ∀ v e, ¬ Waits labels v e) ∧
      ∀ u d, nearest? labels = some (u, d) → Nearest labels u d := by
  induction labels using List.reverseRecOn with
  | nil => exact ⟨fun _ _ _ h => absurd h.1 (by simp [distOf]), fun _ _ h => (nomatch h)⟩
  | append_singleton labels l ih =>
    obtain ⟨hnone, hsome⟩ := ih
    -- A node that does not wait leaves the nearest of the others.
    have skip : (∀ e, ¬ (l.dist = some e ∧ l.settled = false)) →
        (nearest? labels = none → ∀ v e, ¬ Waits (labels ++ [l]) v e) ∧
          ∀ u d, nearest? labels = some (u, d) → Nearest (labels ++ [l]) u d := by
      intro hl
      refine ⟨fun h v e hv => hnone h v e ((waits_concat_idle hl).1 hv), fun u d h => ?_⟩
      exact ⟨(waits_concat_idle hl).2 (hsome u d h).waits, fun hv => (hsome u d h).le ((waits_concat_idle hl).1 hv)⟩
    rw [nearest?_concat]
    cases hs : l.settled with
    | true => exact skip (by simp [hs])
    | false =>
      cases hd : l.dist with
      | none => exact skip (by simp [hd])
      | some d =>
        have last : Waits (labels ++ [l]) labels.length d := waits_concat.2 (.inr ⟨rfl, hd, hs⟩)
        cases hbest : nearest? labels with
        | none =>
          refine ⟨(nomatch ·), fun _ _ h => ?_⟩
          cases h
          exact ⟨last, fun {v e} => le_of_waits_concat hd le_rfl fun hv => absurd hv (hnone hbest v e)⟩
        | some p =>
          obtain ⟨j, b⟩ := p
          have near := hsome j b hbest
          simp only
          split
          · next hlt =>
            refine ⟨(nomatch ·), fun _ _ h => ?_⟩
            cases h
            exact ⟨last, le_of_waits_concat hd le_rfl fun hv => hlt.le.trans (near.le hv)⟩
          · next hlt =>
            refine ⟨(nomatch ·), fun _ _ h => ?_⟩
            cases h
            exact ⟨waits_concat.2 (.inl near.waits), le_of_waits_concat hd (not_lt.1 hlt) near.le⟩

/-! ## Distances in order -/

/-- The distances that the search has found so far: a settled node is no further away than one that waits, its
neighbours are known, and every distance is accounted for by an edge from a settled node. -/
structure Sound (g : Graph K) (start : Nat) (labels : List (Label K)) : Prop where
  length : labels.length = g.size
  origin : distOf labels start = some 0
  known : ∀ {u}, settledOf labels u → ∃ d, distOf labels u = some d
  nonneg : ∀ {v e}, distOf labels v = some e → 0 ≤ e
  order : ∀ {u v d e}, settledOf labels u → distOf labels u = some d → Waits labels v e → d ≤ e
  relaxed : ∀ {u v}, settledOf labels u → g.Edge u v → ∃ e, distOf labels v = some e
  tight : ∀ {v e}, distOf labels v = some e → v ≠ start →
    ∃ u d c, settledOf labels u ∧ distOf labels u = some d ∧ g.cost? u v = some c ∧ e = d + c

theorem distOf_initial (hv : v < g.size) : distOf (g.initial start) v = if v = start then some 0 else none := by
  simp only [distOf, initial, List.getElem?_map, List.getElem?_range hv, Option.map_some, Option.bind_some, beq_iff_eq,
    zero_eq]

theorem settledOf_initial : settledOf (g.initial start) v = false := by
  unfold settledOf initial
  by_cases hv : v < g.size <;> simp [hv]

theorem sound_initial (hstart : start < g.size) : g.Sound start (g.initial start) := by
  have unsettled : ∀ {v}, settledOf (g.initial start) v → False := by simp [settledOf_initial]
  have dist : ∀ {v e}, distOf (g.initial start) v = some e → v = start ∧ e = 0 := by
    intro v e h
    have hv := lt_of_distOf h
    rw [initial, List.length_map, List.length_range] at hv
    rw [distOf_initial hv] at h
    split at h
    · next hs => exact ⟨hs, (Option.some.inj h).symm⟩
    · cases h
  exact {
    length := by simp [initial]
    origin := by rw [distOf_initial hstart, if_pos rfl]
    known := fun h => (unsettled h).elim
    nonneg := fun h => (dist h).2.ge
    order := fun h => (unsettled h).elim
    relaxed := fun h => (unsettled h).elim
    tight := fun h hv => absurd (dist h).1 hv }

theorem distOf_settle_eq (hv : v < labels.length) (he : distOf (g.settle u d labels) v = some e) :
    distOf labels v = some e ∨ ∃ c, g.cost? u v = some c ∧ e = d + c := by
  rw [distOf_settle u d hv] at he
  cases hc : g.cost? u v with
  | none =>
    rw [hc] at he
    exact .inl he
  | some c =>
    rw [hc] at he
    simp only [better] at he
    split at he
    · next hold =>
      rw [if_pos (isFinite_eq _)] at he
      exact .inr ⟨c, rfl, (Option.some.inj he).symm⟩
    · next b hold =>
      split at he
      · exact .inr ⟨c, rfl, (Option.some.inj he).symm⟩
      · exact .inl (hold.trans he)

/-- What was known stays known, and a neighbour gets known. -/
theorem exists_distOf_settle (hv : v < labels.length)
    (h : (∃ e, distOf labels v = some e) ∨ (g.cost? u v).isSome) :
    ∃ e, distOf (g.settle u d labels) v = some e := by
  rw [distOf_settle u d hv]
  cases hc : g.cost? u v with
  | none =>
    rw [hc] at h
    simpa using h
  | some c =>
    simp only [better]
    split
    · exact ⟨_, if_pos (isFinite_eq _)⟩
    · split <;> exact ⟨_, rfl⟩

theorem lt_of_distOf_settle (he : distOf (g.settle u d labels) v = some e) : v < labels.length := by
  simpa [length_settle] using lt_of_distOf he

/-- What is settled behind a step was so before or is the node of the step. -/
theorem settledOf_settle_cases (hv : settledOf (g.settle u d labels) v) :
    v < labels.length ∧ (settledOf labels v ∨ v = u) := by
  have hlt : v < labels.length := by
    by_contra hlt
    rw [settledOf, List.getElem?_eq_none (by rw [length_settle]; omega)] at hv
    cases hv
  rw [settledOf_settle u d hlt, Bool.or_eq_true, beq_iff_eq] at hv
  exact ⟨hlt, hv⟩

variable [IsStrictOrderedRing K]

/-- A node that is no further away than the one to settle keeps its distance. -/
theorem distOf_settle_of_le (hpos : ∀ {u v c}, g.cost? u v = some c → 0 < c) (he : distOf labels v = some e)
    (hle : e ≤ d) : distOf (g.settle u d labels) v = some e := by
  rw [distOf_settle u d (lt_of_distOf he), he]
  cases hc : g.cost? u v with
  | none => rfl
  | some c =>
    have := hpos hc
    exact if_neg (by linarith)

/-- What waits behind a step has its old distance or one behind the node of the step. -/
theorem Nearest.le_of_waits_settle (near : Nearest labels u d) (hpos : ∀ {u v c}, g.cost? u v = some c → 0 < c)
    (hv : Waits (g.settle u d labels) v e) : d ≤ e := by
  have hlt := lt_of_distOf_settle hv.1
  have hs := hv.2
  rw [settledOf_settle u d hlt, Bool.or_eq_false_iff] at hs
  rcases distOf_settle_eq hlt hv.1 with he | ⟨c, hc, rfl⟩
  · exact near.le ⟨he, hs.1⟩
  · have := hpos hc
    linarith

/-- A node that was settled before, or is settled by the step, keeps its distance. -/
theorem Sound.keeps (h : g.Sound start labels) (hpos : ∀ {u v c}, g.cost? u v = some c → 0 < c)
    (near : Nearest labels u d) (hv : settledOf labels v ∨ v = u) :
    ∃ e ≤ d, distOf (g.settle u d labels) v = some e := by
  rcases hv with hv | rfl
  · obtain ⟨e, he⟩ := h.known hv
    have hle := h.order hv he near.waits
    exact ⟨e, hle, distOf_settle_of_le hpos he hle⟩
  · exact ⟨d, le_rfl, distOf_settle_of_le hpos near.waits.1 le_rfl⟩

/-- Settling the nearest node keeps the distances in order. -/
theorem Sound.settle (h : g.Sound start labels) (hpos : ∀ {u v c}, g.cost? u v = some c → 0 < c)
    (near : Nearest labels u d) : g.Sound start (g.settle u d labels) := by
  have hu : u < labels.length := lt_of_distOf near.waits.1
  have hd : 0 ≤ d := h.nonneg near.waits.1
  refine ⟨by rw [length_settle, h.length], distOf_settle_of_le hpos h.origin hd, fun {v} hv => ?_, fun {v e} he => ?_,
    fun {v w a b} hv ha hw => ?_, fun {v w} hv hedge => ?_, fun {v e} he hv => ?_⟩
  · obtain ⟨e, -, he⟩ := h.keeps hpos near (settledOf_settle_cases hv).2
    exact ⟨e, he⟩
  · rcases distOf_settle_eq (lt_of_distOf_settle he) he with he | ⟨c, hc, rfl⟩
    · exact h.nonneg he
    · have := hpos hc
      linarith
  · obtain ⟨e, hle, he⟩ := h.keeps hpos near (settledOf_settle_cases hv).2
    rw [ha] at he
    cases he
    exact hle.trans (near.le_of_waits_settle hpos hw)
  · have hw : w < labels.length := by rw [h.length]; exact hedge.2.1
    rcases (settledOf_settle_cases hv).2 with hv | rfl
    · exact exists_distOf_settle hw (.inl (h.relaxed hv hedge))
    · exact exists_distOf_settle hw (.inr hedge.2.2)
  · rcases distOf_settle_eq (lt_of_distOf_settle he) he with hold | ⟨c, hc, rfl⟩
    · obtain ⟨w, a, c, hw, ha, hc, hsum⟩ := h.tight hold hv
      have hwl := lt_of_distOf ha
      refine ⟨w, a, c, ?_, distOf_settle_of_le hpos ha (h.order hw ha near.waits), hc, hsum⟩
      rw [settledOf_settle u d hwl, hw, Bool.true_or]
    · refine ⟨u, d, c, ?_, distOf_settle_of_le hpos near.waits.1 (le_refl d), hc, rfl⟩
      rw [settledOf_settle u d hu, beq_self_eq_true, Bool.or_true]

/-! ## The end of the search -/

/-- The nodes that are not settled. -/
def unsettled (labels : List (Label K)) : Finset Nat :=
  (Finset.range labels.length).filter fun v => settledOf labels v = false

omit [Field K] [LinearOrder K] [FloorRing K] [Elementary K] [IsStrictOrderedRing K] in
theorem card_unsettled_le (labels : List (Label K)) : (unsettled labels).card ≤ labels.length :=
  (Finset.card_filter_le _ _).trans (Finset.card_range _).le

omit [IsStrictOrderedRing K] in
theorem card_unsettled_settle (hu : Waits labels u d) :
    (unsettled (g.settle u d labels)).card < (unsettled labels).card := by
  have hlt : u < labels.length := lt_of_distOf hu.1
  refine Finset.card_lt_card ⟨fun v hv => ?_, fun hsub => ?_⟩
  · simp only [unsettled, Finset.mem_filter, Finset.mem_range, length_settle] at hv ⊢
    rw [settledOf_settle u d hv.1, Bool.or_eq_false_iff] at hv
    exact ⟨hv.1, hv.2.1⟩
  · have := hsub (Finset.mem_filter.2 ⟨Finset.mem_range.2 hlt, hu.2⟩)
    rw [unsettled, Finset.mem_filter, settledOf_settle u d hlt, beq_self_eq_true, Bool.or_true] at this
    exact absurd this.2 (by decide)

/-- The search keeps the distances in order, and it goes on until no node waits or the goal is the nearest. -/
theorem sound_search (hpos : ∀ {u v c}, g.cost? u v = some c → 0 < c) :
    ∀ {fuel : Nat} {labels : List (Label K)}, g.Sound start labels → (unsettled labels).card < fuel →
      g.Sound start (g.search goal fuel labels) ∧
        ((∀ v e, ¬ Waits (g.search goal fuel labels) v e) ∨ ∃ d, Nearest (g.search goal fuel labels) goal d)
  | 0, _, _, hfuel => absurd hfuel (Nat.not_lt_zero _)
  | fuel + 1, labels, h, hfuel => by
    obtain ⟨hnone, hsome⟩ := nearest?_spec labels
    unfold search
    split
    · next hn => exact ⟨h, .inl (hnone hn)⟩
    · next u d hn =>
      split
      · next hgoal =>
        rw [eq_of_beq hgoal] at hn
        exact ⟨h, .inr ⟨d, hsome _ _ hn⟩⟩
      · have near := hsome u d hn
        have := card_unsettled_settle (g := g) near.waits
        exact sound_search hpos (h.settle hpos near) (by omega)

omit [IsStrictOrderedRing K] in
/-- When no node waits, everything that can be reached is known. -/
theorem Sound.known_of_reaches (h : g.Sound start labels) (hnone : ∀ v e, ¬ Waits labels v e)
    (hreach : Relation.ReflTransGen g.Edge start v) : ∃ e, distOf labels v = some e := by
  induction hreach with
  | refl => exact ⟨0, h.origin⟩
  | @tail u v _ hedge ih =>
    obtain ⟨e, he⟩ := ih
    have hs : settledOf labels u := by
      by_contra hs
      exact hnone u e ⟨he, by simpa using hs⟩
    exact h.relaxed hs hedge

/-! ## The way back -/

open Classical in
/-- The nodes that are nearer than a distance. -/
noncomputable def below (labels : List (Label K)) (d : K) : Finset Nat :=
  (Finset.range labels.length).filter fun v => ∃ e, distOf labels v = some e ∧ e < d

omit [IsStrictOrderedRing K] in
theorem card_below_le (labels : List (Label K)) (d : K) : (below labels d).card ≤ labels.length := by
  classical exact (Finset.card_filter_le _ _).trans (Finset.card_range _).le

omit [IsStrictOrderedRing K] in
theorem card_below_lt (he : distOf labels v = some e) (hlt : e < d) :
    (below labels e).card < (below labels d).card := by
  refine Finset.card_lt_card ⟨fun w hw => ?_, fun hsub => ?_⟩
  · simp only [below, Finset.mem_filter] at hw ⊢
    obtain ⟨hw, a, ha, hae⟩ := hw
    exact ⟨hw, a, ha, hae.trans hlt⟩
  · have := hsub (Finset.mem_filter.2 ⟨Finset.mem_range.2 (lt_of_distOf he), e, he, hlt⟩)
    simp only [below, Finset.mem_filter] at this
    obtain ⟨-, a, ha, hae⟩ := this
    rw [he] at ha
    cases ha
    exact lt_irrefl e hae

theorem tolerance_pos : (0 : K) < tolerance := by
  show (0 : K) < (one : K) / ((1000000000 : Int) : K)
  rw [one_eq]
  positivity

theorem tolerance_lt_one : (tolerance : K) < 1 := by
  show (one : K) / ((1000000000 : Int) : K) < 1
  rw [one_eq]
  norm_num

omit [IsStrictOrderedRing K] in
theorem isTight_iff : g.isTight labels v u = true ↔
    ∃ d c e, distOf labels u = some d ∧ g.cost? u v = some c ∧ distOf labels v = some e ∧ |d + c - e| < tolerance := by
  unfold isTight
  split
  · next d c e hd hc he => simp [hd, hc, he]
  · next hno =>
    refine iff_of_false (by simp) ?_
    rintro ⟨d, c, e, hd, hc, he, -⟩
    exact hno d c e hd hc he

/-- If all edges cost at least one, the way back along tight edges comes nearer with every step, and it arrives. -/
theorem Sound.isSome_walkBack (h : g.Sound start labels) (hone : ∀ {u v c}, g.cost? u v = some c → 1 ≤ c) :
    ∀ {fuel v : Nat} {e : K} {path : List Nat}, distOf labels v = some e → (below labels e).card < fuel →
      (g.walkBack labels start fuel v path).isSome
  | 0, _, _, _, _, hfuel => absurd hfuel (Nat.not_lt_zero _)
  | fuel + 1, v, e, path, he, hfuel => by
    unfold walkBack
    split
    · rfl
    · next hv =>
      rw [beq_iff_eq] at hv
      split
      · next hnone =>
        obtain ⟨u, d, c, -, hd, hc, hsum⟩ := h.tight he hv
        have hu : u ∈ List.range g.size := by
          rw [List.mem_range, ← h.length]
          exact lt_of_distOf hd
        have htight : g.isTight labels v u :=
          isTight_iff.2 ⟨d, c, e, hd, hc, he, by rw [hsum, sub_self, abs_zero]; exact tolerance_pos⟩
        exact absurd htight (List.find?_eq_none.1 hnone u hu)
      · next u hu =>
        obtain ⟨d, c, e', hd, hc, he', htight⟩ := isTight_iff.1 (List.find?_some hu)
        rw [he] at he'
        cases he'
        have hnear : d < e := by
          have := hone hc
          have := (abs_lt.1 htight).2
          have := tolerance_lt_one (K := K)
          linarith
        have := card_below_lt hd hnear
        exact h.isSome_walkBack hone hd (by omega)

/-- If all edges cost at least one, a path to every node that can be reached is found. -/
theorem isSome_shortest? (hone : ∀ {u v c}, g.cost? u v = some c → 1 ≤ c) (hstart : start < g.size)
    (hreach : Relation.ReflTransGen g.Edge start goal) : (g.shortest? start goal).isSome := by
  have hpos : ∀ {u v c}, g.cost? u v = some c → 0 < c := fun hc => zero_lt_one.trans_le (hone hc)
  have hfuel : (unsettled (g.initial start)).card < g.size + 1 := by
    rw [← (sound_initial hstart).length]
    exact Nat.lt_succ_of_le (card_unsettled_le _)
  unfold shortest?
  obtain ⟨h, hend⟩ : g.Sound start (g.search goal (g.size + 1) (g.initial start)) ∧ _ :=
    sound_search hpos (sound_initial hstart) hfuel
  simp only
  generalize g.search goal (g.size + 1) (g.initial start) = labels at h hend ⊢
  obtain ⟨e, he⟩ : ∃ e, distOf labels goal = some e := by
    rcases hend with hnone | ⟨d, hd⟩
    · exact h.known_of_reaches hnone hreach
    · exact ⟨d, hd.waits.1⟩
  rw [he]
  refine h.isSome_walkBack hone he ?_
  rw [← h.length]
  exact Nat.lt_succ_of_le (card_below_le labels e)

end Distances

end DiagramMarkup.Route.Graph
