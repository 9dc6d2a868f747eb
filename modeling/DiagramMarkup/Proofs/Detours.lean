import DiagramMarkup.Proofs.Grids

/-!
# Ways around boxes

Two boxes are joined by a way through the grid if there is a gap between them on one axis and the ends stand on the
edges that their directions name. The numbers are exact.

1. The lines of an axis run on both sides of the boxes and through the gap between them (`lines_coordinates`).
2. Straight ahead of an end there is a line that passes neither box, and the way there does not meet the other box
   (`exists_exit`): it is the line in the gap if the other box lies ahead, else the outermost one.
3. Along that line and then along an outermost one, every end is joined to the first corner of the grid. So a path is
   found (`isSome_path?`).
-/

namespace DiagramMarkup

open Scalar

namespace Box

variable {α : Type} [Scalar α]

/-- The point lies on the edge of the box that the direction leaves through. -/
def OnEdge (b : Box α) (d : Dir) (p : Point α) : Prop :=
  match d with
  | .up => p.y = b.y1 ∧ b.x1 ≤ p.x ∧ p.x ≤ b.x2
  | .down => p.y = b.y2 ∧ b.x1 ≤ p.x ∧ p.x ≤ b.x2
  | .left => p.x = b.x1 ∧ b.y1 ≤ p.y ∧ p.y ≤ b.y2
  | .right => p.x = b.x2 ∧ b.y1 ≤ p.y ∧ p.y ≤ b.y2

/-- There is a gap between the boxes on one axis. -/
def Apart (a b : Box α) : Prop := (a.x2 < b.x1 ∨ b.x2 < a.x1) ∨ a.y2 < b.y1 ∨ b.y2 < a.y1

theorem Apart.symm {a b : Box α} (h : a.Apart b) : b.Apart a := h.imp Or.symm Or.symm

end Box

namespace Route

variable {K : Type} [Field K] [LinearOrder K] [FloorRing K] [Elementary K]

/-! ## Lines -/

/-- The coordinate is not strictly inside the interval. -/
def Clear (z lo hi : K) : Prop := z ≤ lo ∨ hi ≤ z

section Lines

variable {ls : List K} {aLo aHi bLo bHi clearance : K} {ends : List K}

/-- Lines around two intervals, and in the gap between them if there is one. -/
structure Lines (ls : List K) (aLo aHi bLo bHi : K) : Prop where
  below : ∃ m ∈ ls, m < aLo ∧ m < bLo
  above : ∃ m ∈ ls, aHi < m ∧ bHi < m
  behindA : aHi < bLo → ∃ m ∈ ls, aHi < m ∧ m < bLo
  behindB : bHi < aLo → ∃ m ∈ ls, bHi < m ∧ m < aLo

theorem Lines.symm (h : Lines ls aLo aHi bLo bHi) : Lines ls bLo bHi aLo aHi where
  below := by
    obtain ⟨m, hm, ha, hb⟩ := h.below
    exact ⟨m, hm, hb, ha⟩
  above := by
    obtain ⟨m, hm, ha, hb⟩ := h.above
    exact ⟨m, hm, hb, ha⟩
  behindA := h.behindB
  behindB := h.behindA

/-- Above the first interval there is a line outside both. If the intervals are apart, the second does not start
before it. -/
theorem Lines.exists_above (h : Lines ls aLo aHi bLo bHi) (ha : aLo ≤ aHi) :
    ∃ m ∈ ls, aHi < m ∧ Clear m aLo aHi ∧ Clear m bLo bHi ∧
      (aHi < bLo ∨ bHi < aLo → ∀ z ∈ Set.uIcc aHi m, Clear z bLo bHi) := by
  by_cases hgap : aHi < bLo
  · obtain ⟨m, hm, ham, hmb⟩ := h.behindA hgap
    refine ⟨m, hm, ham, .inr ham.le, .inl hmb.le, fun _ z hz => ?_⟩
    rw [Set.uIcc_of_le ham.le] at hz
    exact .inl (hz.2.trans hmb.le)
  · obtain ⟨m, hm, ham, hbm⟩ := h.above
    refine ⟨m, hm, ham, .inr ham.le, .inr hbm.le, fun hap z hz => ?_⟩
    rw [Set.uIcc_of_le ham.le] at hz
    exact .inr ((hap.resolve_left hgap).le.trans (ha.trans hz.1))

/-- The same below the first interval. -/
theorem Lines.exists_below (h : Lines ls aLo aHi bLo bHi) (ha : aLo ≤ aHi) :
    ∃ m ∈ ls, m < aLo ∧ Clear m aLo aHi ∧ Clear m bLo bHi ∧
      (aHi < bLo ∨ bHi < aLo → ∀ z ∈ Set.uIcc aLo m, Clear z bLo bHi) := by
  by_cases hgap : bHi < aLo
  · obtain ⟨m, hm, hbm, hma⟩ := h.behindB hgap
    refine ⟨m, hm, hma, .inl hma.le, .inr hbm.le, fun _ z hz => ?_⟩
    rw [Set.uIcc_of_ge hma.le] at hz
    exact .inr (hbm.le.trans hz.1)
  · obtain ⟨m, hm, hma, hmb⟩ := h.below
    refine ⟨m, hm, hma, .inl hma.le, .inl hmb.le, fun hap z hz => ?_⟩
    rw [Set.uIcc_of_ge hma.le] at hz
    exact .inl (hz.2.trans (ha.trans (hap.resolve_right hgap).le))

variable [IsStrictOrderedRing K]

/-- The grid has such lines if the clearance is positive and the midline stands in the middle. -/
theorem lines_coordinates (hc : 0 < clearance) (ha : aLo ≤ aHi) (hb : bLo ≤ bHi) :
    Lines (coordinates aLo aHi bLo bHi clearance (midline? aLo aHi bLo bHi none) ends) aLo aHi bLo bHi where
  below := by
    rcases le_total aLo bLo with h | h
    · exact ⟨aLo - clearance, mem_coordinates.2 (by simp), by linarith, by linarith⟩
    · exact ⟨bLo - clearance, mem_coordinates.2 (by simp), by linarith, by linarith⟩
  above := by
    rcases le_total aHi bHi with h | h
    · exact ⟨bHi + clearance, mem_coordinates.2 (by simp), by linarith, by linarith⟩
    · exact ⟨aHi + clearance, mem_coordinates.2 (by simp), by linarith, by linarith⟩
  behindA h := ⟨(aHi + bLo) / 2, mem_coordinates.2 (by simp [midline?, h]), by linarith, by linarith⟩
  behindB h := by
    have hab : ¬ aHi < bLo := by linarith
    exact ⟨(aLo + bHi) / 2, mem_coordinates.2 (by simp [midline?, h, hab]), by linarith, by linarith⟩

end Lines

section Exits

variable {a b : Box K} {c q : Point K} {d : Dir} {xs ys : List K}

/-- The vertical or the horizontal line through the point passes neither box. -/
def Free (a b : Box K) (c : Point K) : Prop :=
  (Clear c.x a.x1 a.x2 ∧ Clear c.x b.x1 b.x2) ∨ Clear c.y a.y1 a.y2 ∧ Clear c.y b.y1 b.y2

theorem Free.symm (h : Free a b c) : Free b a c := h.imp And.symm And.symm

theorem not_crosses_of_x (hb : b.normalized = b) (h : ∀ z ∈ Set.uIcc c.x q.x, Clear z b.x1 b.x2) :
    ¬ Crosses b c q := by
  rintro ⟨r, ⟨hx, -⟩, hr⟩
  obtain ⟨⟨h1, h2⟩, -⟩ := (Box.contains_iff hb).1 hr
  rcases h r.x hx with h | h
  · exact absurd h1 (not_lt.2 h)
  · exact absurd h2 (not_lt.2 h)

theorem not_crosses_of_y (hb : b.normalized = b) (h : ∀ z ∈ Set.uIcc c.y q.y, Clear z b.y1 b.y2) :
    ¬ Crosses b c q := by
  rintro ⟨r, ⟨-, hy⟩, hr⟩
  obtain ⟨-, h1, h2⟩ := (Box.contains_iff hb).1 hr
  rcases h r.y hy with h | h
  · exact absurd h1 (not_lt.2 h)
  · exact absurd h2 (not_lt.2 h)

/-- A coordinate in one of two intervals that are apart is outside the other. -/
theorem clear_of_apart {z aLo aHi bLo bHi : K} (h : aHi < bLo ∨ bHi < aLo) (h1 : aLo ≤ z) (h2 : z ≤ aHi) :
    Clear z bLo bHi := h.imp (fun h => h2.trans h.le) fun h => h.le.trans h1

variable [IsStrictOrderedRing K]

/-- From an end on an edge of its box, a corner lies straight ahead whose line in one direction passes neither box, and
on the way there the other box is not met. -/
theorem exists_exit (ha : a.normalized = a) (hb : b.normalized = b) (hap : a.Apart b)
    (hx : Lines xs a.x1 a.x2 b.x1 b.x2) (hy : Lines ys a.y1 a.y2 b.y1 b.y2) (hc : a.OnEdge d c)
    (hcx : d.horizontal = false → c.x ∈ xs) (hcy : d.horizontal = true → c.y ∈ ys) :
    ∃ f : Point K, (f.x ∈ xs ∧ f.y ∈ ys) ∧ ahead c d f ∧ ¬ Crosses b c f ∧ Free a b f := by
  obtain ⟨hax, hay⟩ := Box.normalized_eq_iff.1 ha
  have beside : a.y1 ≤ c.y → c.y ≤ a.y2 → ∀ m,
      (a.x2 < b.x1 ∨ b.x2 < a.x1 → ∀ z ∈ Set.uIcc c.x m, Clear z b.x1 b.x2) → ¬ Crosses b c ⟨m, c.y⟩ := by
    intro h1 h2 m hm
    rcases hap with hap | hap
    · exact not_crosses_of_x hb (hm hap)
    · refine not_crosses_of_y hb fun z hz => ?_
      rw [Set.uIcc_self, Set.mem_singleton_iff] at hz
      rw [hz]
      exact clear_of_apart hap h1 h2
  have beyond : a.x1 ≤ c.x → c.x ≤ a.x2 → ∀ m,
      (a.y2 < b.y1 ∨ b.y2 < a.y1 → ∀ z ∈ Set.uIcc c.y m, Clear z b.y1 b.y2) → ¬ Crosses b c ⟨c.x, m⟩ := by
    intro h1 h2 m hm
    rcases hap with hap | hap
    · refine not_crosses_of_x hb fun z hz => ?_
      rw [Set.uIcc_self, Set.mem_singleton_iff] at hz
      rw [hz]
      exact clear_of_apart hap h1 h2
    · exact not_crosses_of_y hb (hm hap)
  cases d with
  | up =>
    obtain ⟨hedge, h1, h2⟩ := hc
    obtain ⟨m, hm, hlt, hma, hmb, hway⟩ := hy.exists_below hay
    rw [← hedge] at hlt
    exact ⟨⟨c.x, m⟩, ⟨hcx rfl, hm⟩, ahead_iff.2 ⟨rfl, hlt⟩, beyond h1 h2 m (fun h z hz => hway h z (hedge ▸ hz)),
      .inr ⟨hma, hmb⟩⟩
  | down =>
    obtain ⟨hedge, h1, h2⟩ := hc
    obtain ⟨m, hm, hlt, hma, hmb, hway⟩ := hy.exists_above hay
    rw [← hedge] at hlt
    exact ⟨⟨c.x, m⟩, ⟨hcx rfl, hm⟩, ahead_iff.2 ⟨rfl, hlt⟩, beyond h1 h2 m (fun h z hz => hway h z (hedge ▸ hz)),
      .inr ⟨hma, hmb⟩⟩
  | left =>
    obtain ⟨hedge, h1, h2⟩ := hc
    obtain ⟨m, hm, hlt, hma, hmb, hway⟩ := hx.exists_below hax
    rw [← hedge] at hlt
    exact ⟨⟨m, c.y⟩, ⟨hm, hcy rfl⟩, ahead_iff.2 ⟨rfl, hlt⟩, beside h1 h2 m (fun h z hz => hway h z (hedge ▸ hz)),
      .inl ⟨hma, hmb⟩⟩
  | right =>
    obtain ⟨hedge, h1, h2⟩ := hc
    obtain ⟨m, hm, hlt, hma, hmb, hway⟩ := hx.exists_above hax
    rw [← hedge] at hlt
    exact ⟨⟨m, c.y⟩, ⟨hm, hcy rfl⟩, ahead_iff.2 ⟨rfl, hlt⟩, beside h1 h2 m (fun h z hz => hway h z (hedge ▸ hz)),
      .inl ⟨hma, hmb⟩⟩

end Exits

/-! ## Ways through the grid -/

namespace Plan

variable {p : Plan K} {c f : Point K} {i j : Nat}

theorem not_crosses_of_clear_x {b : Box K} (hb : b.normalized = b) {x y y' : K} (h : Clear x b.x1 b.x2) :
    ¬ Crosses b ⟨x, y⟩ ⟨x, y'⟩ :=
  not_crosses_of_x hb fun z hz => by
    rw [Set.uIcc_self, Set.mem_singleton_iff] at hz
    rwa [hz]

theorem not_crosses_of_clear_y {b : Box K} (hb : b.normalized = b) {x x' y : K} (h : Clear y b.y1 b.y2) :
    ¬ Crosses b ⟨x, y⟩ ⟨x', y⟩ :=
  not_crosses_of_y hb fun z hz => by
    rw [Set.uIcc_self, Set.mem_singleton_iff] at hz
    rwa [hz]

variable [IsStrictOrderedRing K]

/-- Corners are joined in both directions if the piece between them stays out of both boxes. -/
theorem reaches_corner (h : p.Regular) (hi : p.corners[i]? = some c) (hj : p.corners[j]? = some f) (hcf : p.Joins c f) :
    Relation.ReflTransGen p.graph.Edge i j ∧ Relation.ReflTransGen p.graph.Edge j i := by
  by_cases hij : i = j
  · rw [hij]
    exact ⟨.refl, .refl⟩
  · have hfc : p.Joins f c := ⟨hcf.1.symm, fun hx => hcf.2.1 hx.symm, fun hx => hcf.2.2 hx.symm⟩
    exact ⟨.single ((edge_corner_iff h hi hj).2 ⟨hij, hcf⟩), .single ((edge_corner_iff h hj hi).2 ⟨Ne.symm hij, hfc⟩)⟩

/-- A corner on a line that passes neither box is joined with a corner where two such lines meet. -/
theorem reaches_of_free (h : p.Regular) (hc : p.corners[i]? = some c) (hcf : Free p.a p.b c)
    (ho : p.corners[j]? = some f) (hx : Clear f.x p.a.x1 p.a.x2 ∧ Clear f.x p.b.x1 p.b.x2)
    (hy : Clear f.y p.a.y1 p.a.y2 ∧ Clear f.y p.b.y1 p.b.y2) :
    Relation.ReflTransGen p.graph.Edge i j ∧ Relation.ReflTransGen p.graph.Edge j i := by
  obtain ⟨hcx, hcy⟩ := mem_corners.1 (List.mem_of_getElem? hc)
  obtain ⟨hfx, hfy⟩ := mem_corners.1 (List.mem_of_getElem? ho)
  obtain ⟨x, y⟩ := c
  obtain ⟨x', y'⟩ := f
  rcases hcf with ⟨hca, hcb⟩ | ⟨hca, hcb⟩
  · obtain ⟨k, hk⟩ := List.mem_iff_getElem?.1 (mem_corners.2 ⟨hcx, hfy⟩ : (⟨x, y'⟩ : Point K) ∈ p.corners)
    obtain ⟨hik, hki⟩ := reaches_corner h hc hk
      ⟨.inl rfl, not_crosses_of_clear_x h.a hca, not_crosses_of_clear_x h.b hcb⟩
    obtain ⟨hkj, hjk⟩ := reaches_corner h hk ho
      ⟨.inr rfl, not_crosses_of_clear_y h.a hy.1, not_crosses_of_clear_y h.b hy.2⟩
    exact ⟨hik.trans hkj, hjk.trans hki⟩
  · obtain ⟨k, hk⟩ := List.mem_iff_getElem?.1 (mem_corners.2 ⟨hfx, hcy⟩ : (⟨x', y⟩ : Point K) ∈ p.corners)
    obtain ⟨hik, hki⟩ := reaches_corner h hc hk
      ⟨.inr rfl, not_crosses_of_clear_y h.a hca, not_crosses_of_clear_y h.b hcb⟩
    obtain ⟨hkj, hjk⟩ := reaches_corner h hk ho
      ⟨.inl rfl, not_crosses_of_clear_x h.a hx.1, not_crosses_of_clear_x h.b hx.2⟩
    exact ⟨hik.trans hkj, hjk.trans hki⟩

/-- The lines of the plan run around its boxes, and through the ends. -/
structure Spans (p : Plan K) : Prop extends p.Regular where
  linesX : Lines p.xs p.a.x1 p.a.x2 p.b.x1 p.b.x2
  linesY : Lines p.ys p.a.y1 p.a.y2 p.b.y1 p.b.y2
  startX : p.startDir.horizontal = false → p.start.x ∈ p.xs
  startY : p.startDir.horizontal = true → p.start.y ∈ p.ys
  goalX : p.goalDir.horizontal = false → p.goal.x ∈ p.xs
  goalY : p.goalDir.horizontal = true → p.goal.y ∈ p.ys

theorem spans_plan {start goal : End K} {d e : Dir} {style : Style K} (hc : 0 < style.clearance)
    (ho : style.cornerOffset = none) : (plan start goal d e style).Spans := by
  obtain ⟨hax, hay⟩ := Box.normalized_eq_iff.1 (normalized_extent start)
  obtain ⟨hbx, hby⟩ := Box.normalized_eq_iff.1 (normalized_extent goal)
  refine ⟨regular_plan start goal d e style, ?_, ?_, fun h => ?_, fun h => ?_, fun h => ?_, fun h => ?_⟩
  · unfold plan
    rw [ho]
    exact lines_coordinates hc hax hbx
  · unfold plan
    rw [ho]
    exact lines_coordinates hc hay hby
  all_goals
    refine mem_coordinates.2 (List.mem_append_right _ (List.mem_map.2 ?_))
    simp only [plan] at h
  · exact ⟨(start.point, d), List.mem_filter.2 ⟨by simp, by simp [h]⟩, rfl⟩
  · exact ⟨(start.point, d), List.mem_filter.2 ⟨by simp, by simp [h]⟩, rfl⟩
  · exact ⟨(goal.point, e), List.mem_filter.2 ⟨by simp, by simp [h]⟩, rfl⟩
  · exact ⟨(goal.point, e), List.mem_filter.2 ⟨by simp, by simp [h]⟩, rfl⟩

/-- Between ends on the edges of boxes that are apart, a path is found. -/
theorem Spans.isSome_path? (h : p.Spans) (hap : p.a.Apart p.b) (hs : p.a.OnEdge p.startDir p.start)
    (hg : p.b.OnEdge p.goalDir p.goal) : p.path?.isSome := by
  have hreg : p.Regular := h.toRegular
  obtain ⟨f, hf, hsf, hsb, hfree⟩ := exists_exit h.a h.b hap h.linesX h.linesY hs h.startX h.startY
  obtain ⟨k, hk, hgk, hga, hkfree⟩ :=
    exists_exit h.b h.a hap.symm h.linesX.symm h.linesY.symm hg h.goalX h.goalY
  obtain ⟨x, hx, hxa, hxb⟩ := h.linesX.below
  obtain ⟨y, hy, hya, hyb⟩ := h.linesY.below
  obtain ⟨u, hu⟩ := List.mem_iff_getElem?.1 (mem_corners.2 hf)
  obtain ⟨v, hv⟩ := List.mem_iff_getElem?.1 (mem_corners.2 hk)
  obtain ⟨o, ho⟩ := List.mem_iff_getElem?.1 (mem_corners.2 ⟨hx, hy⟩ : (⟨x, y⟩ : Point K) ∈ p.corners)
  have hclearX : Clear x p.a.x1 p.a.x2 ∧ Clear x p.b.x1 p.b.x2 := ⟨.inl hxa.le, .inl hxb.le⟩
  have hclearY : Clear y p.a.y1 p.a.y2 ∧ Clear y p.b.y1 p.b.y2 := ⟨.inl hya.le, .inl hyb.le⟩
  have hway : Relation.ReflTransGen p.graph.Edge p.corners.length (p.corners.length + 1) :=
    calc
      Relation.ReflTransGen p.graph.Edge p.corners.length u := .single ((edge_start_iff hreg hu).2 ⟨hsf, hsb⟩)
      Relation.ReflTransGen p.graph.Edge u o := (reaches_of_free hreg hu hfree ho hclearX hclearY).1
      Relation.ReflTransGen p.graph.Edge o v := (reaches_of_free hreg hv hkfree.symm ho hclearX hclearY).2
      Relation.ReflTransGen p.graph.Edge v (p.corners.length + 1) := .single ((edge_goal_iff hreg hv).2 ⟨hgk, hga⟩)
  have hfound := Graph.isSome_shortest? (one_le_cost? hreg) (by rw [size_graph]; omega) hway
  unfold path?
  simp only [List.size_toArray, Option.isSome_map]
  exact hfound

end Plan

end Route

end DiagramMarkup
