import Mathlib.Data.List.Nodup
import DiagramMarkup.Proofs.Pieces
import DiagramMarkup.Proofs.Searches

/-!
# The grid of a route

The candidate corners of a route stand where lines of the two axes meet. With exact numbers the lines of an axis are the
given coordinates in strictly increasing order (`mem_coordinates`, `pairwise_coordinates`), so different corners are
different points.

The edges of the graph are stated of the points they join: between corners (`edge_corner_iff`), from the start
(`edge_start_iff`), to the goal (`edge_goal_iff`), and from the start right to the goal (`edge_direct`). There are no
others (`edge_cases`). Every edge costs at least one (`one_le_cost?`).
-/

namespace DiagramMarkup.Route

open Scalar

variable {K : Type} [Field K] [LinearOrder K] [FloorRing K] [Elementary K]

/-! ## Lines of an axis -/

theorem before_iff {x y : K} : before x y = true ↔ x < y := by simp [before]

theorem perm_insertCoord (x : K) : ∀ xs : List K, (insertCoord x xs).Perm (x :: xs)
  | [] => .refl _
  | y :: ys => by
    unfold insertCoord
    split
    · exact ((perm_insertCoord x ys).cons y).trans (.swap x y ys)
    · exact .refl _

theorem pairwise_insertCoord (x : K) {xs : List K} (h : xs.Pairwise (· ≤ ·)) :
    (insertCoord x xs).Pairwise (· ≤ ·) := by
  induction xs with
  | nil => exact List.pairwise_singleton _ _
  | cons y ys ih =>
    obtain ⟨hy, hys⟩ := List.pairwise_cons.1 h
    unfold insertCoord
    split
    · next hlt =>
      rw [before_iff] at hlt
      refine List.pairwise_cons.2 ⟨fun z hz => ?_, ih hys⟩
      rcases List.mem_cons.1 ((perm_insertCoord x ys).mem_iff.1 hz) with rfl | hz
      · exact hlt.le
      · exact hy z hz
    · next hlt =>
      rw [before_iff, not_lt] at hlt
      refine List.pairwise_cons.2 ⟨fun z hz => ?_, h⟩
      rcases List.mem_cons.1 hz with rfl | hz
      · exact hlt
      · exact hlt.trans (hy z hz)

theorem perm_sortCoords : ∀ xs : List K, (sortCoords xs).Perm xs
  | [] => .refl _
  | x :: xs => (perm_insertCoord x _).trans ((perm_sortCoords xs).cons x)

theorem pairwise_sortCoords : ∀ xs : List K, (sortCoords xs).Pairwise (· ≤ ·)
  | [] => .nil
  | x :: xs => pairwise_insertCoord x (pairwise_sortCoords xs)

theorem mem_compact {x : K} {xs : List K} : x ∈ compact xs ↔ x ∈ xs := by
  fun_induction compact xs with
  | case1 => rfl
  | case2 => rfl
  | case3 y z zs h ih =>
    rw [beq_iff_eq] at h
    rw [ih, h]
    simp
  | case4 y z zs h ih => rw [List.mem_cons, ih, List.mem_cons (l := z :: zs)]

theorem pairwise_compact {xs : List K} (h : xs.Pairwise (· ≤ ·)) : (compact xs).Pairwise (· < ·) := by
  fun_induction compact xs with
  | case1 => exact .nil
  | case2 => exact List.pairwise_singleton _ _
  | case3 y z zs hyz ih =>
    obtain ⟨hy, hz⟩ := List.pairwise_cons.1 h
    exact ih (List.pairwise_cons.2 ⟨fun w hw => hy w (List.mem_cons_of_mem z hw), (List.pairwise_cons.1 hz).2⟩)
  | case4 y z zs hyz ih =>
    obtain ⟨hy, hzs⟩ := List.pairwise_cons.1 h
    have hlt : y < z := lt_of_le_of_ne (hy z (List.mem_cons_self ..)) (by simpa using hyz)
    refine List.pairwise_cons.2 ⟨fun w hw => ?_, ih hzs⟩
    rcases List.mem_cons.1 (mem_compact.1 hw) with rfl | hw
    · exact hlt
    · exact hlt.trans_le ((List.pairwise_cons.1 hzs).1 w hw)

section Coordinates

variable {aLo aHi bLo bHi clearance : K} {mid : Option K} {ends : List K}

theorem mem_coordinates {x : K} : x ∈ coordinates aLo aHi bLo bHi clearance mid ends ↔
    x ∈ [aLo - clearance, aHi + clearance, bLo - clearance, bHi + clearance] ++ mid.toList ++ ends := by
  rw [coordinates, mem_compact, (perm_sortCoords _).mem_iff]

theorem pairwise_coordinates : (coordinates aLo aHi bLo bHi clearance mid ends).Pairwise (· < ·) :=
  pairwise_compact (pairwise_sortCoords _)

end Coordinates

namespace Plan

variable {p : Plan K} {u v i j : Nat} {c d : Point K}

/-- What is common to all plans: the boxes have sorted corners, and the lines are in order. -/
structure Regular (p : Plan K) : Prop where
  a : p.a.normalized = p.a
  b : p.b.normalized = p.b
  xs : p.xs.Pairwise (· < ·)
  ys : p.ys.Pairwise (· < ·)

theorem regular_plan (start goal : End K) (d e : Dir) (style : Style K) : (plan start goal d e style).Regular where
  a := normalized_extent start
  b := normalized_extent goal
  xs := pairwise_coordinates
  ys := pairwise_coordinates

theorem le_of_head?_of_getLast? {xs : List K} {lo hi : K} (h : xs.Pairwise (· < ·)) (hlo : xs.head? = some lo)
    (hhi : xs.getLast? = some hi) : lo ≤ hi := by
  cases xs with
  | nil => cases hlo
  | cons x xs =>
    cases hlo
    rcases List.mem_cons.1 (List.mem_of_getLast? hhi) with rfl | hmem
    · exact le_refl hi
    · exact ((List.pairwise_cons.1 h).1 hi hmem).le

/-! ## Corners -/

section Points

variable {α : Type} {p : Plan α} {c : Point α}

theorem mem_corners : c ∈ p.corners ↔ c.x ∈ p.xs ∧ c.y ∈ p.ys := by
  obtain ⟨x, y⟩ := c
  simp [corners, and_comm]

theorem lt_of_corner (h : p.corners[i]? = some c) : i < p.corners.length :=
  (List.getElem?_eq_some_iff.1 h).1

theorem pointOf_corner (h : p.corners[i]? = some c) : p.pointOf p.corners.toArray i = c := by
  obtain ⟨hi, rfl⟩ := List.getElem?_eq_some_iff.1 h
  simp [pointOf, hi]

theorem pointOf_start : p.pointOf p.corners.toArray p.corners.length = p.start := by simp [pointOf]

theorem pointOf_goal : p.pointOf p.corners.toArray (p.corners.length + 1) = p.goal := by simp [pointOf]

end Points

theorem nodup_corners (h : p.Regular) : p.corners.Nodup := by
  have strict : ∀ {l : List K}, l.Pairwise (· < ·) → l.Nodup := fun hl => hl.imp fun hlt => hlt.ne
  refine List.nodup_flatMap.2 ⟨fun y _ => ?_, ?_⟩
  · exact (strict h.xs).map fun x x' hx => (Point.mk.inj hx).1
  · refine h.ys.imp fun {y y'} hlt => ?_
    simp only [Function.onFun, List.disjoint_left, List.mem_map, not_exists, not_and]
    rintro _ ⟨x, -, rfl⟩ x' - hx
    exact hlt.ne (Point.mk.inj hx).2.symm

theorem size_graph (p : Plan K) : p.graph.size = p.corners.length + 2 := by simp [graph]

/-- Different corners are different points. -/
theorem corner_ne_iff (h : p.Regular) (hi : p.corners[i]? = some c) (hj : p.corners[j]? = some d) :
    c.x ≠ d.x ∨ c.y ≠ d.y ↔ i ≠ j := by
  rw [← not_and_or, not_iff_not]
  constructor
  · rintro ⟨hx, hy⟩
    obtain ⟨x, y⟩ := c
    obtain ⟨x', y'⟩ := d
    subst hx hy
    exact (List.getElem?_inj (lt_of_corner hi) (nodup_corners h)).1 (hi.trans hj.symm)
  · rintro rfl
    cases hi.symm.trans hj
    exact ⟨rfl, rfl⟩

/-- Every edge leads from a corner or the start to a corner or the goal. -/
theorem edge_cases (h : p.graph.Edge u v) :
    (u = p.corners.length ∨ ∃ c, p.corners[u]? = some c) ∧
      (v = p.corners.length + 1 ∨ ∃ d, p.corners[v]? = some d) := by
  obtain ⟨-, -, h⟩ := h
  simp only [graph, List.getElem?_toArray, List.size_toArray] at h
  rcases hu : p.corners[u]? with _ | c <;> rcases hv : p.corners[v]? with _ | d <;> rw [hu, hv] at h <;>
    simp only [Option.isSome_ite, Bool.and_eq_true, beq_iff_eq] at h
  · exact ⟨.inl h.1.1.1, .inl h.1.1.2⟩
  · exact ⟨.inl h.1.1, .inr ⟨d, rfl⟩⟩
  · exact ⟨.inr ⟨c, rfl⟩, .inl h.1.1⟩
  · exact ⟨.inr ⟨c, rfl⟩, .inr ⟨d, rfl⟩⟩

theorem edge_direct (h : p.graph.Edge p.corners.length (p.corners.length + 1)) : ahead p.start p.startDir p.goal := by
  obtain ⟨-, -, h⟩ := h
  simp only [graph, List.getElem?_toArray, List.size_toArray, List.getElem?_eq_none (le_refl p.corners.length),
    List.getElem?_eq_none (Nat.le_succ p.corners.length), Option.isSome_ite, Bool.and_eq_true] at h
  exact h.1.2

/-! ## Costs -/

section Costs

variable [IsStrictOrderedRing K]

theorem le_addSpan {xs : List K} (h : xs.Pairwise (· < ·)) (acc : K) : acc ≤ addSpan acc xs := by
  unfold addSpan
  split
  · next lo hi hlo hhi =>
    have := le_of_head?_of_getLast? h hlo hhi
    linarith
  · exact le_refl acc

theorem one_le_penalty (h : p.Regular) : 1 ≤ p.penalty := by
  unfold penalty
  split
  · next lo hi hlo hhi =>
    have hx := le_of_head?_of_getLast? h.xs hlo hhi
    have hy := le_addSpan h.ys (hi - lo)
    rw [two_eq, one_eq]
    linarith
  · exact one_eq.ge

theorem le_cost (penalty : K) (u v : Point K) : penalty ≤ p.cost penalty u v := by
  have hlen : 0 ≤ |v.x - u.x| + |v.y - u.y| := add_nonneg (abs_nonneg _) (abs_nonneg _)
  unfold cost
  simp only [absolute_eq, two_eq]
  split
  · linarith
  · linarith

/-- Every edge costs at least one. -/
theorem one_le_cost? (h : p.Regular) {k : K} (hk : p.graph.cost? u v = some k) : 1 ≤ k := by
  have dear : ∀ a b, 1 ≤ p.cost p.penalty a b := fun a b => (one_le_penalty h).trans (le_cost _ a b)
  simp only [graph] at hk
  split at hk <;> split at hk <;> cases hk <;> exact dear _ _

end Costs

/-! ## Edges -/

/-- A piece between corners: it stays out of both boxes. -/
def Joins (p : Plan K) (c d : Point K) : Prop := Aligned c d ∧ ¬ Crosses p.a c d ∧ ¬ Crosses p.b c d

/-- A piece from the start: it runs ahead, and it stays out of the box of the goal. -/
def Leaves (p : Plan K) (c : Point K) : Prop := ahead p.start p.startDir c ∧ ¬ Crosses p.b p.start c

/-- A piece to the goal: it lies ahead of the goal, and it stays out of the box of the start. -/
def Arrives (p : Plan K) (c : Point K) : Prop := ahead p.goal p.goalDir c ∧ ¬ Crosses p.a p.goal c

end Plan

variable [IsStrictOrderedRing K]

theorem ahead_iff {c q : Point K} {d : Dir} : ahead c d q = true ↔
    match d with
    | .up => q.x = c.x ∧ q.y < c.y
    | .down => q.x = c.x ∧ c.y < q.y
    | .left => q.y = c.y ∧ q.x < c.x
    | .right => q.y = c.y ∧ c.x < q.x := by
  cases d <;> simp [ahead, sub_eq_zero, sub_neg, sub_pos]

theorem aligned_of_ahead {c q : Point K} {d : Dir} (h : ahead c d q = true) : Aligned c q := by
  rw [ahead_iff] at h
  cases d
  · exact .inl h.1.symm
  · exact .inr h.1.symm
  · exact .inl h.1.symm
  · exact .inr h.1.symm

theorem ne_of_ahead {c q : Point K} {d : Dir} (h : ahead c d q = true) : c.x ≠ q.x ∨ c.y ≠ q.y := by
  rw [ahead_iff] at h
  cases d
  · exact .inr h.2.ne'
  · exact .inl h.2.ne
  · exact .inr h.2.ne
  · exact .inl h.2.ne'

/-- A piece straight ahead is blocked if and only if it passes through the box. -/
theorem blocked_ahead_iff {b : Box K} (hb : b.normalized = b) {c q : Point K} {d : Dir} (h : ahead c d q = true) :
    blocked c q b = true ↔ Crosses b c q := by
  rw [blocked_iff hb (aligned_of_ahead h), and_iff_right (ne_of_ahead h)]

namespace Plan

variable {p : Plan K} {u v i j : Nat} {c d : Point K}

/-- There is an edge between different corners if and only if the piece between them stays out of both boxes. -/
theorem edge_corner_iff (h : p.Regular) (hi : p.corners[i]? = some c) (hj : p.corners[j]? = some d) :
    p.graph.Edge i j ↔ i ≠ j ∧ p.Joins c d := by
  have hli := lt_of_corner hi
  have hlj := lt_of_corner hj
  have hfree : ∀ {b : Box K}, b.normalized = b → i ≠ j → Aligned c d → (blocked c d b = false ↔ ¬ Crosses b c d) := by
    intro b hb hij hcd
    rw [← Bool.not_eq_true, blocked_iff hb hcd, and_iff_right ((corner_ne_iff h hi hj).2 hij)]
  unfold Graph.Edge
  rw [size_graph, and_iff_right (by omega), and_iff_right (by omega)]
  simp only [graph, List.getElem?_toArray, hi, hj, Option.isSome_ite, Bool.and_eq_true, Bool.or_eq_true, bne_iff_ne,
    beq_iff_eq, Bool.not_eq_true', and_assoc]
  refine and_congr_right fun hij => and_congr_right fun hcd => ?_
  rw [hfree h.a hij hcd, hfree h.b hij hcd]

theorem edge_start_iff (h : p.Regular) (hi : p.corners[i]? = some c) :
    p.graph.Edge p.corners.length i ↔ p.Leaves c := by
  have hli := lt_of_corner hi
  unfold Graph.Edge
  rw [size_graph, and_iff_right (by omega), and_iff_right (by omega)]
  simp only [graph, List.getElem?_toArray, List.size_toArray, List.getElem?_eq_none (le_refl p.corners.length), hi,
    Option.isSome_ite, Bool.and_eq_true, beq_self_eq_true, true_and, Bool.not_eq_true']
  refine and_congr_right fun hahead => ?_
  rw [← Bool.not_eq_true, blocked_ahead_iff h.b hahead]

theorem edge_goal_iff (h : p.Regular) (hi : p.corners[i]? = some c) :
    p.graph.Edge i (p.corners.length + 1) ↔ p.Arrives c := by
  have hli := lt_of_corner hi
  unfold Graph.Edge
  rw [size_graph, and_iff_right (by omega), and_iff_right (by omega)]
  simp only [graph, List.getElem?_toArray, List.size_toArray, List.getElem?_eq_none (Nat.le_succ p.corners.length), hi,
    Option.isSome_ite, Bool.and_eq_true, beq_self_eq_true, true_and, Bool.not_eq_true']
  refine and_congr_right fun hahead => ?_
  rw [← Bool.not_eq_true, blocked_ahead_iff h.a hahead]

end Plan

end DiagramMarkup.Route
