import DiagramMarkup.Proofs.Enclosures

/-!
# Boxes around and within all of a list

With exact numbers, boxes are compared by the points that lie in them, whatever the order of their corners.

1. A box lies in another one, point by point, exactly if its sorted sides do (`Box.covers_iff`).
2. The box around all lies in a box exactly if each of them does (`Box.unionAll_within_iff`), and a box lies in the
   common part exactly if it lies in each (`Box.within_intersectAll`). Either property leaves one upright box.
3. There is a common part exactly if the boxes have a point in common (`Box.exists_intersectAll_iff`).
4. So both depend only on which boxes there are, each with its corners sorted: not on their order
   (`Box.combined_exactly`).
-/

namespace DiagramMarkup.Box

section Sides

variable {K : Type} [LinearOrder K] {b c : Box K} {p : Point K}

theorem holds_iff_within : b.Holds p ↔ (⟨p.x, p.y, p.x, p.y⟩ : Box K).Within b := Iff.rfl

theorem Upright.holds_corners (h : b.Upright) : b.Holds ⟨b.x1, b.y1⟩ ∧ b.Holds ⟨b.x2, b.y2⟩ :=
  ⟨⟨⟨le_rfl, h.1⟩, le_rfl, h.2⟩, ⟨h.1, le_rfl⟩, h.2, le_rfl⟩

theorem Within.holds (h : b.Within c) (hp : b.Holds p) : c.Holds p :=
  ⟨⟨h.1.1.trans hp.1.1, hp.1.2.trans h.1.2⟩, h.2.1.trans hp.2.1, hp.2.2.trans h.2.2⟩

theorem Within.antisymm (h : b.Within c) (h' : c.Within b) : b = c := by
  cases b
  cases c
  simp only [mk.injEq]
  exact ⟨le_antisymm h'.1.1 h.1.1, le_antisymm h'.2.1 h.2.1, le_antisymm h.1.2 h'.1.2, le_antisymm h.2.2 h'.2.2⟩

end Sides

variable {K : Type} [Field K] [LinearOrder K] [FloorRing K] [Elementary K] {b c d r u : Box K} {bs cs : List (Box K)}

/-- Every point of the other box lies in the box, whatever the order of their corners. -/
def Covers (c b : Box K) : Prop := ∀ p : Point K, b.normalized.Holds p → c.normalized.Holds p

/-- One box lies in another point by point exactly if its sides do. -/
theorem covers_iff : c.Covers b ↔ b.normalized.Within c.normalized := by
  constructor
  · intro h
    obtain ⟨hfirst, hlast⟩ := (upright_normalized b).holds_corners
    exact ⟨⟨(h _ hfirst).1.1, (h _ hlast).1.2⟩, (h _ hfirst).2.1, (h _ hlast).2.2⟩
  · exact fun h p hp => h.holds hp

/-! ## Around all -/

theorem union_within_iff : (b.union c).Within d ↔ b.normalized.Within d ∧ c.normalized.Within d := by
  have hx1 : d.x1 ≤ (b.union c).x1 ↔ _ := le_min_iff
  have hx2 : (b.union c).x2 ≤ d.x2 ↔ _ := max_le_iff
  have hy1 : d.y1 ≤ (b.union c).y1 ↔ _ := le_min_iff
  have hy2 : (b.union c).y2 ≤ d.y2 ↔ _ := max_le_iff
  unfold Within
  rw [hx1, hx2, hy1, hy2]
  exact (and_congr and_and_and_comm and_and_and_comm).trans and_and_and_comm

theorem foldl_union_within_iff (cs : List (Box K)) (hb : b.Upright) :
    (cs.foldl union b).Within d ↔ b.Within d ∧ ∀ c ∈ cs, c.normalized.Within d := by
  induction cs generalizing b with
  | nil => simp
  | cons c cs ih =>
    rw [List.foldl_cons, ih (upright_union b c), union_within_iff, hb.normalized_eq, List.forall_mem_cons, and_assoc]

/-- The box around all lies in exactly the boxes in which each of them lies. -/
theorem unionAll_within_iff (h : unionAll? bs = some u) : u.Within d ↔ ∀ b ∈ bs, b.normalized.Within d := by
  cases bs with
  | nil => cases h
  | cons b bs =>
    cases h
    rw [foldl_union_within_iff bs (upright_normalized b), List.forall_mem_cons]

theorem exists_unionAll (h : bs ≠ []) : ∃ u, unionAll? bs = some u := by
  obtain ⟨b, bs, rfl⟩ := List.exists_cons_of_ne_nil h
  exact ⟨_, rfl⟩

/-! ## The same boxes -/

/-- The lists hold the same boxes, apart from how often, in which order, and which corners are given. -/
def SameBoxes (bs cs : List (Box K)) : Prop := ∀ n : Box K, n ∈ bs.map normalized ↔ n ∈ cs.map normalized

namespace SameBoxes

theorem of_perm (h : cs.Perm bs) : SameBoxes cs bs := fun _ => (h.map normalized).mem_iff

theorem of_normalized (h : List.Forall₂ (fun b c : Box K => c = b ∨ c = b.normalized) bs cs) :
    SameBoxes cs bs := by
  have heq : cs.map normalized = bs.map normalized := by
    induction h with
    | nil => rfl
    | cons hc _ ih =>
      rw [List.map_cons, List.map_cons, ih]
      rcases hc with rfl | rfl
      · rfl
      · rw [normalized_normalized]
  exact fun n => by rw [heq]

theorem symm (h : SameBoxes bs cs) : SameBoxes cs bs := fun n => (h n).symm

theorem forall_of_forall (h : SameBoxes bs cs) {P : Box K → Prop} (hbs : ∀ b ∈ bs, P b.normalized) :
    ∀ c ∈ cs, P c.normalized := by
  intro c hc
  obtain ⟨b, hb, heq⟩ := List.mem_map.1 ((h c.normalized).2 (List.mem_map_of_mem hc))
  exact heq ▸ hbs b hb

theorem forall_iff (h : SameBoxes bs cs) (P : Box K → Prop) :
    (∀ b ∈ bs, P b.normalized) ↔ ∀ c ∈ cs, P c.normalized := ⟨h.forall_of_forall, h.symm.forall_of_forall⟩

theorem eq_nil (h : SameBoxes bs cs) (hbs : bs = []) : cs = [] := by
  subst hbs
  exact List.eq_nil_iff_forall_not_mem.2 fun c hc => by simpa using (h c.normalized).2 (List.mem_map_of_mem hc)

theorem unionAll_eq (h : SameBoxes bs cs) : unionAll? bs = unionAll? cs := by
  by_cases hnil : bs = []
  · rw [h.eq_nil hnil, hnil]
  obtain ⟨u, hu⟩ := exists_unionAll hnil
  obtain ⟨v, hv⟩ := exists_unionAll (mt h.symm.eq_nil hnil)
  have hiff : ∀ d, u.Within d ↔ v.Within d := fun d => by
    rw [unionAll_within_iff hu, unionAll_within_iff hv]
    exact h.forall_iff (·.Within d)
  rw [hu, hv, ((hiff v).2 (within_refl v)).antisymm ((hiff u).1 (within_refl u))]

end SameBoxes

/-! ## Within all -/

variable [IsStrictOrderedRing K]

/-- Boxes with a point in common have a common part, and the point lies in it. -/
theorem exists_intersect {p : Point K} (hb : b.normalized.Holds p) (hc : c.normalized.Holds p) :
    ∃ r, b.intersect? c = some r ∧ r.normalized.Holds p := by
  have held : (b.overlap c).Holds p :=
    ⟨⟨max_le hb.1.1 hc.1.1, le_min hb.1.2 hc.1.2⟩, max_le hb.2.1 hc.2.1, le_min hb.2.2 hc.2.2⟩
  have upright : (b.overlap c).Upright := ⟨held.1.1.trans held.1.2, held.2.1.trans held.2.2⟩
  have together : ¬ b.Separate c := by
    unfold Separate width height
    rw [Scalar.zero_eq, not_or, not_lt, not_lt]
    exact ⟨sub_nonneg.2 upright.1, sub_nonneg.2 upright.2⟩
  exact ⟨_, by rw [intersect?_eq, if_neg together], upright.normalized_eq.symm ▸ held⟩

theorem exists_foldlM_intersect {p : Point K} (cs : List (Box K)) (hb : b.normalized.Holds p)
    (hcs : ∀ c ∈ cs, c.normalized.Holds p) : ∃ r, cs.foldlM intersect? b = some r := by
  induction cs generalizing b with
  | nil => exact ⟨b, rfl⟩
  | cons c cs ih =>
    obtain ⟨hc, hcs⟩ := List.forall_mem_cons.1 hcs
    obtain ⟨a, ha, hold⟩ := exists_intersect hb hc
    obtain ⟨r, hr⟩ := ih hold hcs
    exact ⟨r, by rw [List.foldlM_cons, ha]; exact hr⟩

/-- There is a common part exactly if some point lies in every box. -/
theorem exists_intersectAll_iff (h : bs ≠ []) :
    (∃ r, intersectAll? bs = some r) ↔ ∃ p : Point K, ∀ b ∈ bs, b.normalized.Holds p := by
  constructor
  · rintro ⟨r, hr⟩
    obtain ⟨upright, hall⟩ := within_intersectAll hr
    exact ⟨⟨r.x1, r.y1⟩, (hall _).1 (holds_iff_within.1 upright.holds_corners.1)⟩
  · rintro ⟨p, hp⟩
    obtain ⟨b, bs, rfl⟩ := List.exists_cons_of_ne_nil h
    obtain ⟨hb, hbs⟩ := List.forall_mem_cons.1 hp
    exact exists_foldlM_intersect bs ((upright_normalized b).normalized_eq.symm ▸ hb) hbs

theorem SameBoxes.intersectAll_eq (h : SameBoxes bs cs) : intersectAll? bs = intersectAll? cs := by
  by_cases hnil : bs = []
  · rw [h.eq_nil hnil, hnil]
  have hexists : (∃ r, intersectAll? bs = some r) ↔ ∃ s, intersectAll? cs = some s := by
    rw [exists_intersectAll_iff hnil, exists_intersectAll_iff (mt h.symm.eq_nil hnil)]
    exact exists_congr fun p => h.forall_iff (·.Holds p)
  cases hr : intersectAll? bs with
  | none =>
    cases hs : intersectAll? cs with
    | none => rfl
    | some s =>
      obtain ⟨r, hr'⟩ := hexists.2 ⟨s, hs⟩
      cases hr.symm.trans hr'
  | some r =>
    obtain ⟨s, hs⟩ := hexists.1 ⟨r, hr⟩
    have hiff : ∀ d : Box K, d.Within r ↔ d.Within s := fun d => by
      rw [(within_intersectAll hr).2, (within_intersectAll hs).2]
      exact h.forall_iff (d.Within ·)
    rw [hs, ((hiff r).1 (within_refl r)).antisymm ((hiff s).2 (within_refl s))]

/-- The box around all is the least sorted box that holds every one of them. There is a common part exactly if a point
lies in every box, and then it is the largest box within each. Neither depends on the order of the boxes or of their
corners. -/
theorem combined_exactly (bs : List (Box K)) (hbs : bs ≠ []) :
    (∃ u, unionAll? bs = some u ∧ u.normalized = u ∧ (∀ b ∈ bs, u.Covers b) ∧
        ∀ v : Box K, (∀ b ∈ bs, v.Covers b) → v.Covers u) ∧
      ((∃ r, intersectAll? bs = some r) ↔ ∃ p : Point K, ∀ b ∈ bs, b.normalized.Holds p) ∧
      (∀ r, intersectAll? bs = some r → r.normalized = r ∧ (∀ b ∈ bs, b.Covers r) ∧
        ∀ v : Box K, (∀ b ∈ bs, b.Covers v) → r.Covers v) ∧
      ∀ cs, cs.Perm bs ∨ List.Forall₂ (fun b c => c = b ∨ c = b.normalized) bs cs →
        unionAll? cs = unionAll? bs ∧ intersectAll? cs = intersectAll? bs := by
  refine ⟨?_, exists_intersectAll_iff hbs, fun r hr => ?_, fun cs hcs => ?_⟩
  · obtain ⟨u, hu⟩ := exists_unionAll hbs
    obtain ⟨upright, hall⟩ := within_unionAll hu
    refine ⟨u, hu, upright.normalized_eq, fun b hb => ?_, fun v hv => ?_⟩
    · rw [covers_iff, upright.normalized_eq]
      exact hall b hb
    · rw [covers_iff, upright.normalized_eq, unionAll_within_iff hu]
      exact fun b hb => covers_iff.1 (hv b hb)
  · obtain ⟨upright, hall⟩ := within_intersectAll hr
    refine ⟨upright.normalized_eq, fun b hb => ?_, fun v hv => ?_⟩
    · rw [covers_iff, upright.normalized_eq]
      exact (hall r).1 (within_refl r) b hb
    · rw [covers_iff, upright.normalized_eq, hall]
      exact fun b hb => covers_iff.1 (hv b hb)
  · have same : SameBoxes cs bs := hcs.elim .of_perm .of_normalized
    exact ⟨same.unionAll_eq, same.intersectAll_eq⟩

/-- Of two boxes, one is given by its lower right corner first. -/
theorem combined_exactly_reversed :
    letI := Elementary.rough
    let bs : List (Box ℚ) := [⟨3, 3, 1, 1⟩, ⟨0, 0, 2, 5⟩]
    bs ≠ [] ∧ (∃ p : Point ℚ, ∀ b ∈ bs, b.normalized.Holds p) ∧ (∃ r, intersectAll? bs = some r) ∧
      (∃ u, unionAll? bs = some u ∧ u.normalized = u ∧ ∀ b ∈ bs, u.Covers b) ∧
      unionAll? [⟨0, 0, 2, 5⟩, ⟨3, 3, 1, 1⟩] = unionAll? bs ∧
      intersectAll? [⟨0, 0, 2, 5⟩, ⟨3, 3, 1, 1⟩] = intersectAll? bs := by
  let := Elementary.rough
  intro bs
  have hbs : bs ≠ [] := List.cons_ne_nil _ _
  have hp : ∃ p : Point ℚ, ∀ b ∈ bs, b.normalized.Holds p := ⟨⟨1, 1⟩, by decide +kernel⟩
  obtain ⟨⟨u, hu, hnormal, hcovers, -⟩, hcommon, -, hsame⟩ := combined_exactly bs hbs
  exact ⟨hbs, hp, hcommon.2 hp, ⟨u, hu, hnormal, hcovers⟩, hsame _ (.inl (.swap _ _ _))⟩

end DiagramMarkup.Box
