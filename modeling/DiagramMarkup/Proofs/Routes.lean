import DiagramMarkup.Proofs.Detours

/-!
# Routes

With exact numbers, the route between two ends is described by where its pieces run.

1. A path through the grid joins the two points, behind its first piece it stays out of the box of the start, and
   before its last out of the box of the goal (`legal_of_path?`). Simplifying keeps this (`Legal.simplify`), so the
   route has it (`route_legal`).
2. Between ends on the edges of boxes that are apart, there is a path, so no route is a straight line across
   (`route_orthogonal`).
-/

namespace DiagramMarkup.Route

open Scalar

variable {K : Type} [Field K] [LinearOrder K] [FloorRing K] [Elementary K]

/-! ## Legal routes -/

/-- A legal route joins the points of two ends by horizontal and vertical pieces. Behind its first piece it stays out of
the box of the start, and before its last piece out of the box of the goal. So of several pieces those in between keep
out of both boxes, the first keeps out of the box of the goal and the last out of the box of the start. -/
structure Legal (start goal : End K) (ps : List (Point K)) : Prop where
  head : ps.head? = some start.point
  last : ps.getLast? = some goal.point
  aligned : ps.IsChain Aligned
  behindFirst : ps.tail.IsChain fun c d => ¬ Crosses start.extent c d
  beforeLast : ps.dropLast.IsChain fun c d => ¬ Crosses goal.extent c d

theorem not_crosses_symm {b : Box K} {p q : Point K} (h : ¬ Crosses b p q) : ¬ Crosses b q p := fun hq => h hq.symm

theorem not_crosses_of_inLine {b : Box K} {p m q : Point K} (hline : inLine p m q = true) (hp : ¬ Crosses b p m)
    (hq : ¬ Crosses b m q) : ¬ Crosses b p q := fun h => (crosses_of_inLine hline h).elim hp hq

theorem aligned_of_inLine {p m q : Point K} (hline : inLine p m q = true) : Aligned p q :=
  (inLine_iff.1 hline).imp (fun h => h.1.trans h.2) fun h => h.1.trans h.2

/-- Simplifying keeps a route legal. -/
theorem Legal.simplify {start goal : End K} {ps : List (Point K)} (h : Legal start goal ps) :
    Legal start goal (simplify ps) where
  head := by
    obtain ⟨qs, rfl⟩ := List.head?_eq_some_iff.1 h.head
    exact head?_simplify _ qs
  last := by
    obtain ⟨qs, rfl⟩ := List.getLast?_eq_some_iff.1 h.last
    exact getLast?_simplify qs _
  aligned := isChain_simplify Aligned.symm (fun hline _ _ => aligned_of_inLine hline) h.aligned
  behindFirst := isChain_tail_simplify not_crosses_symm not_crosses_of_inLine h.behindFirst
  beforeLast := isChain_dropLast_simplify not_crosses_symm not_crosses_of_inLine h.beforeLast

section Chains

variable {α : Type} {R : α → α → Prop}

/-- Behind the first piece of a chain, every piece has one in front of it. -/
theorem isChain_tail_behind : ∀ {l : List α}, l.IsChain R → l.tail.IsChain fun u v => (∃ w, R w u) ∧ R u v
  | [], _ => .nil
  | [_], _ => .nil
  | [_, b], _ => .singleton b
  | a :: b :: c :: l, h => by
    obtain ⟨hab, h⟩ := List.isChain_cons_cons.1 h
    exact List.isChain_cons_cons.2 ⟨⟨⟨a, hab⟩, (List.isChain_cons_cons.1 h).1⟩, isChain_tail_behind h⟩

/-- Before the last piece of a chain, every piece has one behind it. -/
theorem isChain_dropLast_before : ∀ {l : List α}, l.IsChain R → l.dropLast.IsChain fun u v => R u v ∧ ∃ w, R v w
  | [], _ => .nil
  | [_], _ => .nil
  | [a, _], _ => .singleton a
  | a :: b :: c :: l, h => by
    obtain ⟨hab, h⟩ := List.isChain_cons_cons.1 h
    exact List.isChain_cons_cons.2 ⟨⟨hab, c, (List.isChain_cons_cons.1 h).1⟩, isChain_dropLast_before h⟩

end Chains

variable [IsStrictOrderedRing K]

namespace Plan

variable {p : Plan K} {u v w : Nat}

/-- The point of a node. -/
abbrev spot (p : Plan K) (i : Nat) : Point K := p.pointOf p.corners.toArray i

theorem aligned_of_edge (h : p.Regular) (huv : p.graph.Edge u v) : Aligned (p.spot u) (p.spot v) := by
  obtain ⟨rfl | ⟨c, hu⟩, rfl | ⟨d, hv⟩⟩ := edge_cases huv
  · rw [Plan.spot, Plan.spot, pointOf_start, pointOf_goal]
    exact aligned_of_ahead (edge_direct huv)
  · rw [Plan.spot, Plan.spot, pointOf_start, pointOf_corner hv]
    exact aligned_of_ahead ((edge_start_iff h hv).1 huv).1
  · rw [Plan.spot, Plan.spot, pointOf_corner hu, pointOf_goal]
    exact (aligned_of_ahead ((edge_goal_iff h hu).1 huv).1).symm
  · rw [Plan.spot, Plan.spot, pointOf_corner hu, pointOf_corner hv]
    exact ((edge_corner_iff h hu hv).1 huv).2.1

omit [IsStrictOrderedRing K] in
/-- Between two edges stands a corner. -/
theorem exists_corner (huv : p.graph.Edge u v) (hvw : p.graph.Edge v w) : ∃ c, p.corners[v]? = some c := by
  rcases (edge_cases hvw).1 with rfl | hv
  · rcases (edge_cases huv).2 with hv | ⟨c, hv⟩
    · omega
    · exact absurd (lt_of_corner hv) (lt_irrefl _)
  · exact hv

/-- An edge from a node that another edge leads to starts at a corner, so it stays out of the box of the start. -/
theorem not_crosses_a (h : p.Regular) (hwu : p.graph.Edge w u) (huv : p.graph.Edge u v) :
    ¬ Crosses p.a (p.spot u) (p.spot v) := by
  obtain ⟨c, hu⟩ := exists_corner hwu huv
  rcases (edge_cases huv).2 with rfl | ⟨d, hv⟩
  · rw [Plan.spot, Plan.spot, pointOf_corner hu, pointOf_goal]
    exact not_crosses_symm ((edge_goal_iff h hu).1 huv).2
  · rw [Plan.spot, Plan.spot, pointOf_corner hu, pointOf_corner hv]
    exact ((edge_corner_iff h hu hv).1 huv).2.2.1

/-- An edge to a node that another edge leads from ends at a corner, so it stays out of the box of the goal. -/
theorem not_crosses_b (h : p.Regular) (huv : p.graph.Edge u v) (hvw : p.graph.Edge v w) :
    ¬ Crosses p.b (p.spot u) (p.spot v) := by
  obtain ⟨d, hv⟩ := exists_corner huv hvw
  rcases (edge_cases huv).1 with rfl | ⟨c, hu⟩
  · rw [Plan.spot, Plan.spot, pointOf_start, pointOf_corner hv]
    exact ((edge_start_iff h hv).1 huv).2
  · rw [Plan.spot, Plan.spot, pointOf_corner hu, pointOf_corner hv]
    exact ((edge_corner_iff h hu hv).1 huv).2.2.2

end Plan

section Ends

variable {start goal : End K} {d e : Dir} {style : Style K}

/-- A path through the grid is legal. -/
theorem legal_of_path? {ps : List (Point K)} (h : (plan start goal d e style).path? = some ps) :
    Legal start goal ps := by
  have hreg := Plan.regular_plan start goal d e style
  generalize hp : plan start goal d e style = p at h hreg
  obtain ⟨nodes, hnodes, rfl⟩ := Option.map_eq_some_iff.1 h
  simp only [List.size_toArray] at hnodes
  obtain ⟨hchain, hhead, hlast⟩ := Graph.isChain_of_shortest? hnodes (by rw [Plan.size_graph]; omega)
  have hstart : p.start = start.point := by rw [← hp]; rfl
  have hgoal : p.goal = goal.point := by rw [← hp]; rfl
  have ha : p.a = start.extent := by rw [← hp]; rfl
  have hb : p.b = goal.extent := by rw [← hp]; rfl
  refine ⟨?_, ?_, ?_, ?_, ?_⟩
  · rw [List.head?_map, hhead, Option.map_some, Plan.pointOf_start, hstart]
  · rw [List.getLast?_map, hlast, Option.map_some, Plan.pointOf_goal, hgoal]
  · rw [List.isChain_map]
    exact hchain.imp fun u v huv => Plan.aligned_of_edge hreg huv
  · rw [← List.map_tail, List.isChain_map, ← ha]
    exact (isChain_tail_behind hchain).imp fun u v ⟨⟨w, hwu⟩, huv⟩ => Plan.not_crosses_a hreg hwu huv
  · rw [← List.map_dropLast, List.isChain_map, ← hb]
    exact (isChain_dropLast_before hchain).imp fun u v ⟨huv, w, hvw⟩ => Plan.not_crosses_b hreg huv hvw

/-- A path is found if the boxes of the ends are apart and each point stands on the edge that its direction names. -/
theorem exists_path {a b : Box K} (ha : start.box = some a) (hb : goal.box = some b) (han : a.normalized = a)
    (hbn : b.normalized = b) (hap : a.Apart b) (hs : a.OnEdge d start.point) (hg : b.OnEdge e goal.point)
    (hc : 0 < style.clearance) (ho : style.cornerOffset = none) :
    ∃ path, (plan start goal d e style).path? = some path := by
  have hstart : start.extent = a := by simp only [End.extent, ha, han]
  have hgoal : goal.extent = b := by simp only [End.extent, hb, hbn]
  refine Option.isSome_iff_exists.1 ((Plan.spans_plan hc ho).isSome_path? ?_ ?_ ?_)
  · show start.extent.Apart goal.extent
    rwa [hstart, hgoal]
  · show start.extent.OnEdge d start.point
    rwa [hstart]
  · show goal.extent.OnEdge e goal.point
    rwa [hgoal]

/-- If a path is found, the route is legal. -/
theorem route_legal {path : List (Point K)} (hd : start.dir = some d) (he : goal.dir = some e)
    (h : (plan start goal d e style).path? = some path) : Legal start goal (route start goal style) := by
  simp only [route, hd, he, h]
  exact (legal_of_path? h).simplify

/-- To the box below, the way leads around the box of the start. -/
theorem route_legal_below :
    letI := Elementary.rough
    let start : End ℚ := ⟨⟨5, 5 / 2⟩, some .right, some ⟨0, 0, 5, 5⟩⟩
    let goal : End ℚ := ⟨⟨0, 25 / 2⟩, some .left, some ⟨0, 10, 5, 15⟩⟩
    (∃ path, (plan start goal .right .left ⟨1, none⟩).path? = some path) ∧
      Legal start goal (route start goal ⟨1, none⟩) := by
  let := Elementary.rough
  intro start goal
  obtain ⟨path, h⟩ : ∃ path, (plan start goal .right .left ⟨1, none⟩).path? = some path :=
    exists_path rfl rfl (Box.normalized_eq_iff.2 (by norm_num)) (Box.normalized_eq_iff.2 (by norm_num))
      (by norm_num [Box.Apart]) (by norm_num [Box.OnEdge, start]) (by norm_num [Box.OnEdge, goal]) (by norm_num) rfl
  exact ⟨⟨path, h⟩, route_legal rfl rfl h⟩

/-- Between ends on the edges of boxes that are apart, the route follows a path and all its pieces are horizontal or
vertical. -/
theorem route_orthogonal {a b : Box K} (hd : start.dir = some d) (he : goal.dir = some e) (ha : start.box = some a)
    (hb : goal.box = some b) (han : a.normalized = a) (hbn : b.normalized = b) (hap : a.Apart b)
    (hs : a.OnEdge d start.point) (hg : b.OnEdge e goal.point) (hc : 0 < style.clearance)
    (ho : style.cornerOffset = none) :
    (∃ path, (plan start goal d e style).path? = some path ∧ route start goal style = simplify path) ∧
      (route start goal style).IsChain fun p q => p.x = q.x ∨ p.y = q.y := by
  obtain ⟨path, h⟩ : ∃ path, (plan start goal d e style).path? = some path :=
    exists_path ha hb han hbn hap hs hg hc ho
  have hroute : route start goal style = simplify path := by simp only [route, hd, he, h]
  refine ⟨⟨path, h, hroute⟩, ?_⟩
  rw [hroute]
  exact (legal_of_path? h).simplify.aligned

/-- The boxes may be closer to each other than the clearance. -/
theorem route_orthogonal_close :
    letI := Elementary.rough
    let start : End ℚ := ⟨⟨5, 2⟩, some .right, some ⟨0, 0, 5, 5⟩⟩
    let goal : End ℚ := ⟨⟨8, 5⟩, some .down, some ⟨6, 0, 9, 5⟩⟩
    (∃ path, (plan start goal .right .down ⟨3, none⟩).path? = some path ∧
        route start goal ⟨3, none⟩ = simplify path) ∧
      (route start goal ⟨3, none⟩).IsChain fun p q => p.x = q.x ∨ p.y = q.y := by
  let := Elementary.rough
  intro start goal
  exact route_orthogonal rfl rfl rfl rfl (Box.normalized_eq_iff.2 (by norm_num))
    (Box.normalized_eq_iff.2 (by norm_num)) (by norm_num [Box.Apart]) (by norm_num [Box.OnEdge, start])
    (by norm_num [Box.OnEdge, goal]) (by norm_num) rfl

end Ends

end DiagramMarkup.Route
