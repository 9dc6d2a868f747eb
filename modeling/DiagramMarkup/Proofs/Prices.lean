import DiagramMarkup.Proofs.Costs
import DiagramMarkup.Proofs.Routes

/-!
# The price of pieces

Every piece of a route costs its length, or half of it on a midline, and a penalty. The numbers are exact.

1. The path that is found between two ends is a cheapest one (`cheapest_path`).
2. Within the grid no piece is longer than the grid is wide or high, and the penalty is more than twice the sum of both
   (`penalty_eq`). So a path with no more than two horizontal and two vertical pieces costs less than any path with more
   pieces (`cost_le_of_walk`), and the route does not have more pieces either (`fewest_pieces`).
-/

namespace DiagramMarkup.Route

open Scalar

variable {K : Type} [Field K] [LinearOrder K] [FloorRing K] [Elementary K]

namespace Plan

variable {p : Plan K} {u v : Nat} {c d : Point K} {k : K}

/-! ## Pieces -/

theorem corners_or_ends (h : u < p.graph.size) :
    (∃ c, p.corners[u]? = some c) ∨ u = p.corners.length ∨ u = p.corners.length + 1 := by
  rw [size_graph] at h
  by_cases hu : u < p.corners.length
  · exact .inl ⟨_, List.getElem?_eq_getElem hu⟩
  · omega

/-- An edge costs what the piece between its points costs. -/
theorem cost?_eq (h : p.graph.cost? u v = some k) : k = p.cost p.penalty (p.spot u) (p.spot v) := by
  simp only [graph, List.getElem?_toArray, List.size_toArray] at h
  rcases hu : p.corners[u]? with _ | c <;> rcases hv : p.corners[v]? with _ | d <;> rw [hu, hv] at h <;>
    simp only [Option.ite_none_right_eq_some, Bool.and_eq_true, beq_iff_eq] at h
  · obtain ⟨⟨⟨⟨rfl, rfl⟩, -⟩, -⟩, hk⟩ := h
    rw [Plan.spot, Plan.spot, pointOf_start, pointOf_goal]
    exact (Option.some.inj hk).symm
  · obtain ⟨⟨⟨rfl, -⟩, -⟩, hk⟩ := h
    rw [Plan.spot, Plan.spot, pointOf_start, pointOf_corner hv]
    exact (Option.some.inj hk).symm
  · obtain ⟨⟨⟨rfl, -⟩, -⟩, hk⟩ := h
    rw [Plan.spot, Plan.spot, pointOf_corner hu, pointOf_goal]
    exact (Option.some.inj hk).symm
  · rw [Plan.spot, Plan.spot, pointOf_corner hu, pointOf_corner hv]
    exact (Option.some.inj h.2).symm

/-! ## Cheapest paths -/

/-- The search over the grid of two ends finds a path whenever there is one, its way back ends after no more steps than
there are nodes, and the path is as cheap as any other, up to the tolerance for each of its edges. -/
theorem cheapest_path [IsStrictOrderedRing K] (start goal : End K) (d e : Dir) (style : Style K) :
    let g := (plan start goal d e style).graph
    let s := (plan start goal d e style).corners.length
    let t := s + 1
    (g.shortest? s t = none ↔ ¬ Relation.ReflTransGen g.Edge s t) ∧
      (∀ fuel > g.size, g.walkBack (g.search t (g.size + 1) (g.initial s)) s fuel t [] = g.shortest? s t) ∧
      ∀ nodes, g.shortest? s t = some nodes → ∃ k, g.Walk t s nodes k ∧
        ∀ nodes' k', g.Walk t s nodes' k' → k ≤ k' + nodes.tail.length * Graph.tolerance := by
  intro g s t
  have hreg := regular_plan start goal d e style
  have hone : ∀ {u v c}, g.cost? u v = some c → 1 ≤ c := one_le_cost? hreg
  have hs : s < g.size := by rw [size_graph]; omega
  have ht : t < g.size := by rw [size_graph]; omega
  refine ⟨Graph.shortest?_eq_none_iff hone hs ht, fun fuel hfuel => ?_, fun nodes hnodes => ?_⟩
  · exact Graph.walkBack_eq_shortest? hone hs (Nat.ne_of_lt (Nat.lt_succ_self s)) hfuel
  · exact Graph.exists_walk_of_shortest? hone hs ht hnodes

/-- Between two boxes that are apart, a path is found, and no other is cheaper, up to the tolerance. -/
theorem cheapest_path_apart :
    letI := Elementary.rough
    let start : End ℚ := ⟨⟨5, 5 / 2⟩, some .right, some ⟨0, 0, 5, 5⟩⟩
    let goal : End ℚ := ⟨⟨20, 30⟩, some .left, some ⟨20, 55 / 2, 25, 65 / 2⟩⟩
    let p := plan start goal .right .left ⟨1, none⟩
    let s := p.corners.length
    ∃ nodes, p.graph.shortest? s (s + 1) = some nodes ∧ ∃ k, p.graph.Walk (s + 1) s nodes k ∧
      ∀ nodes' k', p.graph.Walk (s + 1) s nodes' k' → k ≤ k' + nodes.tail.length * Graph.tolerance := by
  let := Elementary.rough
  intro start goal p s
  obtain ⟨path, h⟩ : ∃ path, p.path? = some path :=
    exists_path rfl rfl (Box.normalized_eq_iff.2 (by norm_num)) (Box.normalized_eq_iff.2 (by norm_num))
      (by norm_num [Box.Apart]) (by norm_num [Box.OnEdge, start]) (by norm_num [Box.OnEdge, goal]) (by norm_num) rfl
  obtain ⟨nodes, hnodes, -⟩ := Option.map_eq_some_iff.1 h
  exact ⟨nodes, hnodes, (cheapest_path start goal .right .left ⟨1, none⟩).2.2 nodes hnodes⟩

/-! ## The extent of the grid -/

/-- The distance from the first to the last of some sorted coordinates. -/
def span (xs : List K) : K := addSpan 0 xs

theorem addSpan_eq (acc : K) (xs : List K) : addSpan acc xs = acc + span xs := by
  unfold span addSpan
  split
  · ring
  · rw [add_zero]

/-- The penalty is more than any detour on the grid. -/
theorem penalty_eq (h : p.xs ≠ []) : p.penalty = 2 * (span p.xs + span p.ys) + 1 := by
  obtain ⟨lo, hlo⟩ := Option.ne_none_iff_exists'.1 (mt List.head?_eq_none_iff.1 h)
  obtain ⟨hi, hhi⟩ := Option.ne_none_iff_exists'.1 (mt List.getLast?_eq_none_iff.1 h)
  have hspan : span p.xs = hi - lo := by simp only [span, addSpan, hlo, hhi]; ring
  simp only [penalty, hlo, hhi, addSpan_eq (hi - lo), hspan, two_eq, one_eq]

/-- The coordinate stands between two of the lines, or on one. -/
def Between (xs : List K) (z : K) : Prop := (∃ x ∈ xs, x ≤ z) ∧ ∃ x ∈ xs, z ≤ x

theorem between_of_mem {xs : List K} {z : K} (h : z ∈ xs) : Between xs z := ⟨⟨z, h, le_refl z⟩, z, h, le_refl z⟩

/-- No two coordinates between the lines are further apart than the first and the last line. -/
theorem Between.abs_sub_le [IsStrictOrderedRing K] {xs : List K} (h : xs.Pairwise (· < ·)) {z w : K}
    (hz : Between xs z) (hw : Between xs w) : |w - z| ≤ span xs := by
  have lines : ∀ {x y : K}, x ∈ xs → y ∈ xs → y - x ≤ span xs := by
    intro x y hx hy
    obtain ⟨lo, rest, rfl⟩ := List.exists_cons_of_ne_nil (List.ne_nil_of_mem hx)
    obtain ⟨hi, hhi⟩ := Option.ne_none_iff_exists'.1 (mt List.getLast?_eq_none_iff.1 (List.cons_ne_nil lo rest))
    obtain ⟨init, hinit⟩ := List.getLast?_eq_some_iff.1 hhi
    have hlo : lo ≤ x := by
      rcases List.mem_cons.1 hx with rfl | hx
      · exact le_refl x
      · exact ((List.pairwise_cons.1 h).1 x hx).le
    have hle : y ≤ hi := by
      rw [hinit] at hy h
      rcases List.mem_append.1 hy with hy | hy
      · exact ((List.pairwise_append.1 h).2.2 y hy hi (List.mem_singleton_self hi)).le
      · exact (List.mem_singleton.1 hy).le
    have hspan : span (lo :: rest) = hi - lo := by simp only [span, addSpan, List.head?_cons, hhi]; ring
    linarith
  obtain ⟨⟨x, hx, hxz⟩, x', hx', hzx'⟩ := hz
  obtain ⟨⟨y, hy, hyw⟩, y', hy', hwy'⟩ := hw
  refine abs_sub_le_iff.2 ⟨?_, ?_⟩
  · linarith [lines hx hy']
  · linarith [lines hy hx']

/-- The point lies within the rectangle around the grid. -/
def Within (p : Plan K) (c : Point K) : Prop := Between p.xs c.x ∧ Between p.ys c.y

theorem within_corner (h : p.corners[u]? = some c) : p.Within c := by
  obtain ⟨hx, hy⟩ := mem_corners.1 (List.mem_of_getElem? h)
  exact ⟨between_of_mem hx, between_of_mem hy⟩

theorem within_spot (hs : p.Within p.start) (hg : p.Within p.goal) (hu : u < p.graph.size) : p.Within (p.spot u) := by
  rcases corners_or_ends hu with ⟨c, hc⟩ | rfl | rfl
  · rw [Plan.spot, pointOf_corner hc]
    exact within_corner hc
  · rwa [Plan.spot, pointOf_start]
  · rwa [Plan.spot, pointOf_goal]

end Plan

/-! ## Numbers of pieces -/

section Counts

variable {α : Type}

/-- The number of pieces with a property. -/
def countPieces (f : Point α → Point α → Bool) : List (Point α) → Nat
  | a :: b :: rest => (f a b).toNat + countPieces f (b :: rest)
  | _ => 0

variable [Scalar α]

/-- The number of horizontal pieces. -/
def horizontals : List (Point α) → Nat := countPieces fun a b => a.y == b.y

/-- The number of vertical pieces. -/
def verticals : List (Point α) → Nat := countPieces fun a b => a.x == b.x

end Counts

theorem length_addCorner_le (out : List (Point K)) (c : Point K) : (addCorner out c).length ≤ out.length + 1 := by
  unfold addCorner
  split
  · simp
  · split <;> simp
  · split
    · simp
    · split <;> simp

/-- Simplifying adds no corners. -/
theorem length_simplify_le (ps : List (Point K)) : (simplify ps).length ≤ ps.length := by
  have added : ∀ (ps out : List (Point K)), (ps.foldl addCorner out).length ≤ out.length + ps.length := by
    intro ps
    induction ps with
    | nil => intro out; exact Nat.le_refl _
    | cons c ps ih =>
      intro out
      have := length_addCorner_le out c
      have := ih (addCorner out c)
      rw [List.foldl_cons, List.length_cons]
      omega
  unfold simplify
  rw [List.length_reverse]
  simpa using added ps []

namespace Plan

variable {p : Plan K} {u v t : Nat} {c d : Point K} {k : K} {nodes : List Nat} [IsStrictOrderedRing K]

/-- A piece costs no more than the penalty and the extent of the grid in its direction. -/
theorem cost_le (h : p.Regular) (hal : Aligned c d) (hc : p.Within c) (hd : p.Within d) :
    p.cost p.penalty c d ≤
      p.penalty + (c.y == d.y).toNat * span p.xs + (c.x == d.x).toNat * span p.ys := by
  have hx := Between.abs_sub_le h.xs hc.1 hd.1
  have hy := Between.abs_sub_le h.ys hc.2 hd.2
  have hlen : p.cost p.penalty c d ≤ |d.x - c.x| + |d.y - c.y| + p.penalty := by
    unfold cost
    simp only [absolute_eq, two_eq]
    split
    · linarith [abs_nonneg (d.x - c.x), abs_nonneg (d.y - c.y)]
    · exact le_refl _
  have wide : 0 ≤ (c.y == d.y).toNat * span p.xs := mul_nonneg (Nat.cast_nonneg _) ((abs_nonneg _).trans hx)
  have high : 0 ≤ (c.x == d.x).toNat * span p.ys := mul_nonneg (Nat.cast_nonneg _) ((abs_nonneg _).trans hy)
  rcases hal with hal | hal
  · have hone : (((c.x == d.x).toNat : Nat) : K) = 1 := by simp [hal]
    rw [hone] at high ⊢
    rw [hal, sub_self, abs_zero] at hlen
    linarith
  · have hone : (((c.y == d.y).toNat : Nat) : K) = 1 := by simp [hal]
    rw [hone] at wide ⊢
    rw [hal, sub_self, abs_zero] at hlen
    linarith

/-- A path costs no more than a penalty for each piece and the extent of the grid along each piece. -/
theorem cost_le_of_walk (h : p.Regular) (hs : p.Within p.start) (hg : p.Within p.goal)
    (hw : p.graph.Walk t u nodes k) :
    k ≤ nodes.tail.length * p.penalty + horizontals (nodes.map p.spot) * span p.xs +
      verticals (nodes.map p.spot) * span p.ys := by
  induction hw with
  | done _ => simp [horizontals, verticals, countPieces]
  | @step u v nodes c k hu hc hw ih =>
    obtain ⟨rest, rfl⟩ := List.head?_eq_some_iff.1 hw.head?
    have hedge : p.graph.Edge u v := ⟨hu, hw.lt, by rw [hc]; rfl⟩
    have hpiece := cost_le h (aligned_of_edge h hedge) (within_spot hs hg hu) (within_spot hs hg hw.lt)
    rw [← cost?_eq hc] at hpiece
    simp only [List.map_cons, horizontals, verticals, countPieces, List.tail_cons, List.length_cons, Nat.cast_add,
      Nat.cast_one] at ih ⊢
    linarith

/-- A path costs no less than a penalty for each piece. -/
theorem penalty_le_of_walk (hw : p.graph.Walk t u nodes k) : nodes.tail.length * p.penalty ≤ k := by
  induction hw with
  | done _ => simp
  | @step u v nodes c k hu hc hw ih =>
    obtain ⟨rest, rfl⟩ := List.head?_eq_some_iff.1 hw.head?
    have hpiece := le_cost p.penalty (p.spot u) (p.spot v) (p := p)
    rw [← cost?_eq hc] at hpiece
    simp only [List.tail_cons, List.length_cons, Nat.cast_add, Nat.cast_one] at ih ⊢
    linarith

/-- Every piece of a path is horizontal or vertical. -/
theorem length_le_of_walk (h : p.Regular) (hw : p.graph.Walk t u nodes k) :
    nodes.tail.length ≤ horizontals (nodes.map p.spot) + verticals (nodes.map p.spot) := by
  induction hw with
  | done _ => simp
  | @step u v nodes c k hu hc hw ih =>
    obtain ⟨rest, rfl⟩ := List.head?_eq_some_iff.1 hw.head?
    have hedge : p.graph.Edge u v := ⟨hu, hw.lt, by rw [hc]; rfl⟩
    simp only [List.map_cons, horizontals, verticals, countPieces, List.tail_cons, List.length_cons] at ih ⊢
    have hone : 1 ≤ ((p.spot u).y == (p.spot v).y).toNat + ((p.spot u).x == (p.spot v).x).toNat := by
      rcases aligned_of_edge h hedge with hx | hy
      · simp [hx]
      · simp [hy]
    omega

theorem tolerance_lt_fifth : (Graph.tolerance : K) < 1 / 5 := by
  show (one : K) / ((1000000000 : Int) : K) < 1 / 5
  rw [one_eq]
  norm_num

/-- If a path has at most two horizontal and two vertical pieces, the path that is found has no more pieces. -/
theorem length_le_of_shortest? (h : p.Regular) (hs : p.Within p.start) (hg : p.Within p.goal)
    (ht : t < p.graph.size) (hw : p.graph.Walk t u nodes k) (hh : horizontals (nodes.map p.spot) ≤ 2)
    (hv : verticals (nodes.map p.spot) ≤ 2) {found : List Nat} (hfound : p.graph.shortest? u t = some found) :
    found.tail.length ≤ nodes.tail.length := by
  obtain ⟨k', hw', hle⟩ := Graph.exists_walk_of_shortest? (one_le_cost? h) hw.lt ht hfound
  obtain ⟨x, hx, -⟩ := hs.1.1
  have hwide : 0 ≤ span p.xs := (abs_nonneg _).trans (Between.abs_sub_le h.xs hs.1 hs.1)
  have hhigh : 0 ≤ span p.ys := (abs_nonneg _).trans (Between.abs_sub_le h.ys hs.2 hs.2)
  have hpenalty : p.penalty = 2 * (span p.xs + span p.ys) + 1 := penalty_eq (List.ne_nil_of_mem hx)
  -- The path costs less than one penalty more than its pieces, the found one at least a penalty for each piece.
  have hcost : k ≤ nodes.tail.length * p.penalty + (p.penalty - 1) := by
    have hbound := cost_le_of_walk h hs hg hw
    have hflat : (horizontals (nodes.map p.spot) : K) * span p.xs ≤ 2 * span p.xs :=
      mul_le_mul_of_nonneg_right (by exact_mod_cast hh) hwide
    have hsteep : (verticals (nodes.map p.spot) : K) * span p.ys ≤ 2 * span p.ys :=
      mul_le_mul_of_nonneg_right (by exact_mod_cast hv) hhigh
    linarith
  have hfoundCost : found.tail.length * p.penalty ≤ k + found.tail.length * Graph.tolerance :=
    (penalty_le_of_walk hw').trans (hle nodes k hw)
  by_contra hmore
  have hn : (nodes.tail.length : K) ≤ 4 := by
    have := length_le_of_walk h hw
    exact_mod_cast (show nodes.tail.length ≤ 4 by omega)
  have hm : (nodes.tail.length : K) + 1 ≤ found.tail.length := by
    exact_mod_cast (show nodes.tail.length + 1 ≤ found.tail.length by omega)
  have htol : 0 < (Graph.tolerance : K) := Graph.tolerance_pos
  have hfifth := tolerance_lt_fifth (K := K)
  have hscaled : ((nodes.tail.length : K) + 1) * (p.penalty - Graph.tolerance) ≤
      found.tail.length * (p.penalty - Graph.tolerance) := mul_le_mul_of_nonneg_right hm (by linarith)
  have hslack : ((nodes.tail.length : K) + 1) * Graph.tolerance ≤ 5 * Graph.tolerance :=
    mul_le_mul_of_nonneg_right (by linarith) htol.le
  linarith

end Plan

/-- Fewer corners win: if both ends lie within the grid and a path through it has at most two horizontal and two
vertical pieces, then a path is found that has no more pieces, and neither has the route. -/
theorem fewest_pieces {start goal : End K} {d e : Dir} {style : Style K} [IsStrictOrderedRing K]
    (hd : start.dir = some d) (he : goal.dir = some e) (hs : (plan start goal d e style).Within start.point)
    (hg : (plan start goal d e style).Within goal.point) {nodes : List Nat} {k : K}
    (hw : (plan start goal d e style).graph.Walk ((plan start goal d e style).corners.length + 1)
      (plan start goal d e style).corners.length nodes k)
    (hh : horizontals (nodes.map (plan start goal d e style).spot) ≤ 2)
    (hv : verticals (nodes.map (plan start goal d e style).spot) ≤ 2) :
    ∃ path, (plan start goal d e style).path? = some path ∧ path.length ≤ nodes.length ∧
      (route start goal style).length ≤ nodes.length := by
  have hreg := Plan.regular_plan start goal d e style
  have ht : (plan start goal d e style).corners.length + 1 < (plan start goal d e style).graph.size := by
    rw [Plan.size_graph]; omega
  obtain ⟨found, hfound⟩ := Option.isSome_iff_exists.1
    (Graph.isSome_shortest? (Plan.one_le_cost? hreg) hw.lt hw.reaches)
  have hlen := Plan.length_le_of_shortest? hreg hs hg ht hw hh hv hfound
  have hpath : (plan start goal d e style).path? = some (found.map (plan start goal d e style).spot) := by
    simp only [Plan.path?, List.size_toArray, hfound, Option.map_some]
  have hle : found.length ≤ nodes.length := by
    obtain ⟨rest, rfl⟩ := List.head?_eq_some_iff.1 hw.head?
    rw [List.length_tail, List.length_tail] at hlen
    simp at hlen ⊢
    omega
  refine ⟨_, hpath, by simpa using hle, ?_⟩
  simp only [route, hd, he, hpath]
  exact (length_simplify_le _).trans (by simpa using hle)

/-- Between boxes that are apart, two elbows are enough. -/
theorem fewest_pieces_elbows :
    letI := Elementary.rough
    let start : End ℚ := ⟨⟨5, 5 / 2⟩, some .right, some ⟨0, 0, 5, 5⟩⟩
    let goal : End ℚ := ⟨⟨20, 30⟩, some .left, some ⟨20, 55 / 2, 25, 65 / 2⟩⟩
    ∃ path, (plan start goal .right .left ⟨1, none⟩).path? = some path ∧ path.length ≤ 4 ∧
      (route start goal ⟨1, none⟩).length ≤ 4 := by
  let := Elementary.rough
  intro start goal
  let p := plan start goal .right .left ⟨1, none⟩
  have edge : ∀ u v, (p.graph.cost? u v).isSome = true → ∃ c, p.graph.cost? u v = some c :=
    fun _ _ => Option.isSome_iff_exists.1
  obtain ⟨c, hc⟩ := edge 35 7 (by decide +kernel)
  obtain ⟨c', hc'⟩ := edge 7 27 (by decide +kernel)
  obtain ⟨c'', hc''⟩ := edge 27 36 (by decide +kernel)
  have hsize : p.graph.size = 37 := by decide +kernel
  have hn : p.corners.length = 35 := by decide +kernel
  have hwalk : p.graph.Walk (p.corners.length + 1) p.corners.length [35, 7, 27, 36] (c + (c' + (c'' + zero))) := by
    rw [hn]
    exact .step (by omega) hc (.step (by omega) hc' (.step (by omega) hc'' (.done (by omega))))
  have within : ∀ c : Point ℚ, (p.xs.any (· ≤ c.x) && p.xs.any (c.x ≤ ·)) = true →
      (p.ys.any (· ≤ c.y) && p.ys.any (c.y ≤ ·)) = true → p.Within c := by
    intro c hx hy
    simp only [Bool.and_eq_true, List.any_eq_true, decide_eq_true_eq] at hx hy
    exact ⟨hx, hy⟩
  exact fewest_pieces rfl rfl (within _ (by decide +kernel) (by decide +kernel))
    (within _ (by decide +kernel) (by decide +kernel)) hwalk (by decide +kernel) (by decide +kernel)

end DiagramMarkup.Route
