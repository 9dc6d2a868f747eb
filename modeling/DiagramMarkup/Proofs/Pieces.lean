import Mathlib.Data.List.Chain
import Mathlib.Order.Interval.Set.UnorderedInterval
import Mathlib.Tactic.Linarith
import DiagramMarkup.Proofs.Exact
import DiagramMarkup.Route.Orthogonal

/-!
# Pieces of routes

A route consists of horizontal and vertical pieces. With exact numbers, a piece of some length is blocked by a box if
and only if one of its points lies strictly inside (`blocked_iff`).

A route is simplified by dropping repeated points and inner points of straight runs. The piece that replaces two others
has no points but theirs (`crosses_of_inLine`), so whatever holds of pieces and is kept by such a replacement holds of
the simplified route if it held of the original one (`isChain_simplify`), also when only the pieces behind the first
(`isChain_tail_simplify`) or before the last (`isChain_dropLast_simplify`) are known to have it.
-/

namespace DiagramMarkup

variable {K : Type} [Field K] [LinearOrder K] [FloorRing K] [Elementary K]

namespace Box

variable {b : Box K}

theorem normalized_eq_iff : b.normalized = b ↔ b.x1 ≤ b.x2 ∧ b.y1 ≤ b.y2 := by
  obtain ⟨x1, y1, x2, y2⟩ := b
  simp only [normalized, Scalar.least_eq_min, Scalar.greatest_eq_max, Box.mk.injEq]
  constructor
  · rintro ⟨hx, hy, -, -⟩
    exact ⟨min_eq_left_iff.1 hx, min_eq_left_iff.1 hy⟩
  · rintro ⟨hx, hy⟩
    exact ⟨min_eq_left hx, min_eq_left hy, max_eq_right hx, max_eq_right hy⟩

theorem normalized_normalized (b : Box K) : b.normalized.normalized = b.normalized :=
  normalized_eq_iff.2 ⟨min_le_max, min_le_max⟩

theorem contains_iff (h : b.normalized = b) {x y : K} :
    b.contains x y ↔ (b.x1 < x ∧ x < b.x2) ∧ b.y1 < y ∧ y < b.y2 := by
  unfold contains
  simp only [h, Bool.and_eq_true, decide_eq_true_eq, and_assoc]

end Box

namespace Route

open Scalar

theorem normalized_extent (e : End K) : e.extent.normalized = e.extent := by
  unfold End.extent
  split
  · exact Box.normalized_normalized _
  · exact Box.normalized_eq_iff.2 ⟨le_refl _, le_refl _⟩

/-! ## Points of pieces -/

/-- The piece is horizontal or vertical. -/
def Aligned (p q : Point K) : Prop := p.x = q.x ∨ p.y = q.y

/-- The point lies on a horizontal or vertical piece. -/
def OnPiece (p q r : Point K) : Prop := r.x ∈ Set.uIcc p.x q.x ∧ r.y ∈ Set.uIcc p.y q.y

/-- Some point of the piece lies strictly inside the box. -/
def Crosses (b : Box K) (p q : Point K) : Prop := ∃ r, OnPiece p q r ∧ b.contains r.x r.y

variable {b : Box K} {p q r : Point K}

omit [Field K] [LinearOrder K] [FloorRing K] [Elementary K] in
theorem Aligned.symm (h : Aligned p q) : Aligned q p := h.imp Eq.symm Eq.symm

theorem Crosses.symm (h : Crosses b p q) : Crosses b q p := by
  obtain ⟨r, ⟨hx, hy⟩, hr⟩ := h
  exact ⟨r, ⟨Set.uIcc_comm p.x q.x ▸ hx, Set.uIcc_comm p.y q.y ▸ hy⟩, hr⟩

section Order

variable [IsStrictOrderedRing K]

/-- Two intervals overlap if and only if one has some length and a point of it lies inside the other. -/
theorem overlap_iff {x y lo hi : K} :
    max (min x y) lo < min (max x y) hi ↔ x ≠ y ∧ ∃ z ∈ Set.uIcc x y, lo < z ∧ z < hi := by
  rw [max_lt_iff, lt_min_iff, lt_min_iff, min_lt_max]
  constructor
  · rintro ⟨⟨hxy, hmin⟩, hmax, hlo⟩
    obtain ⟨z, hz, hz'⟩ := exists_between (show max (min x y) lo < min (max x y) hi by
      rw [max_lt_iff, lt_min_iff, lt_min_iff, min_lt_max]
      exact ⟨⟨hxy, hmin⟩, hmax, hlo⟩)
    rw [max_lt_iff] at hz
    rw [lt_min_iff] at hz'
    exact ⟨hxy, z, ⟨hz.1.le, hz'.1.le⟩, hz.2, hz'.2⟩
  · rintro ⟨hxy, z, ⟨hmin, hmax⟩, hlo, hhi⟩
    exact ⟨⟨hxy, hmin.trans_lt hhi⟩, hlo.trans_le hmax, hlo.trans hhi⟩

/-- A horizontal or vertical piece is blocked by a box if and only if it has some length and passes through the
inside of the box. -/
theorem blocked_iff (hb : b.normalized = b) (h : Aligned p q) :
    blocked p q b = true ↔ (p.x ≠ q.x ∨ p.y ≠ q.y) ∧ Crosses b p q := by
  have inside : ∀ {x y : K}, b.contains x y ↔ (b.x1 < x ∧ x < b.x2) ∧ b.y1 < y ∧ y < b.y2 := Box.contains_iff hb
  unfold blocked
  split
  · next hflat =>
    refine iff_of_false (by simp) ?_
    rintro ⟨-, r, -, hr⟩
    obtain ⟨⟨hx1, hx2⟩, hy1, hy2⟩ := inside.1 hr
    simp only [Box.width, Box.height, zero_eq, Bool.or_eq_true, decide_eq_true_eq, sub_nonpos] at hflat
    rcases hflat with hw | hh
    · exact absurd (hx1.trans hx2) (not_lt.2 hw)
    · exact absurd (hy1.trans hy2) (not_lt.2 hh)
  · split
    · next hy =>
      rw [beq_iff_eq] at hy
      simp only [Bool.and_eq_true, decide_eq_true_eq, least_eq_min, greatest_eq_max, overlap_iff]
      constructor
      · rintro ⟨⟨hy1, hy2⟩, hx, z, hz, hz1, hz2⟩
        exact ⟨.inl hx, ⟨z, p.y⟩, ⟨hz, Set.left_mem_uIcc⟩, inside.2 ⟨⟨hz1, hz2⟩, hy1, hy2⟩⟩
      · rintro ⟨hne, r, ⟨hrx, hry⟩, hr⟩
        rw [← hy, Set.uIcc_self, Set.mem_singleton_iff] at hry
        obtain ⟨hx, hy'⟩ := inside.1 hr
        rw [hry] at hy'
        exact ⟨hy', hne.resolve_right (not_not.2 hy), r.x, hrx, hx⟩
    · next hy =>
      rw [beq_iff_eq] at hy
      have hx : p.x = q.x := h.resolve_right hy
      simp only [Bool.and_eq_true, decide_eq_true_eq, least_eq_min, greatest_eq_max, overlap_iff]
      constructor
      · rintro ⟨⟨hx1, hx2⟩, hy, z, hz, hz1, hz2⟩
        exact ⟨.inr hy, ⟨p.x, z⟩, ⟨Set.left_mem_uIcc, hz⟩, inside.2 ⟨⟨hx1, hx2⟩, hz1, hz2⟩⟩
      · rintro ⟨hne, r, ⟨hrx, hry⟩, hr⟩
        rw [← hx, Set.uIcc_self, Set.mem_singleton_iff] at hrx
        obtain ⟨hx', hy'⟩ := inside.1 hr
        rw [hrx] at hx'
        exact ⟨hx', hy, r.y, hry, hy'⟩

end Order

/-! ## Simplified routes -/

theorem inLine_iff {m : Point K} :
    inLine p m q = true ↔ (p.x = m.x ∧ m.x = q.x) ∨ (p.y = m.y ∧ m.y = q.y) := by
  simp [inLine]

/-- The piece that replaces two others in line has no points but theirs. -/
theorem crosses_of_inLine {m : Point K} (hline : inLine p m q = true) (h : Crosses b p q) :
    Crosses b p m ∨ Crosses b m q := by
  obtain ⟨r, ⟨hx, hy⟩, hr⟩ := h
  rcases inLine_iff.1 hline with ⟨hp, hq⟩ | ⟨hp, hq⟩
  · rw [hp, ← hq, Set.uIcc_self] at hx
    rcases Set.uIcc_subset_uIcc_union_uIcc hy with hy | hy
    · exact .inl ⟨r, ⟨by rw [hp, Set.uIcc_self]; exact hx, hy⟩, hr⟩
    · exact .inr ⟨r, ⟨by rw [← hq, Set.uIcc_self]; exact hx, hy⟩, hr⟩
  · rw [hp, ← hq, Set.uIcc_self] at hy
    rcases Set.uIcc_subset_uIcc_union_uIcc hx with hx | hx
    · exact .inl ⟨r, ⟨hx, by rw [hp, Set.uIcc_self]; exact hy⟩, hr⟩
    · exact .inr ⟨r, ⟨hx, by rw [← hq, Set.uIcc_self]; exact hy⟩, hr⟩

theorem head?_addCorner (out : List (Point K)) (p : Point K) : (addCorner out p).head? = some p := by
  have same : ∀ {b : Point K}, (b.x == p.x && b.y == p.y) = true → b = p := by
    intro b h
    obtain ⟨bx, bY⟩ := b
    obtain ⟨px, py⟩ := p
    simpa using h
  unfold addCorner
  split
  · rfl
  · split
    · next h => rw [same h]; rfl
    · rfl
  · split
    · next h => rw [same h]; rfl
    · split <;> rfl

theorem getLast?_addCorner {out : List (Point K)} (hout : out ≠ []) (p : Point K) :
    (addCorner out p).getLast? = out.getLast? := by
  unfold addCorner
  split
  · exact absurd rfl hout
  · split <;> rfl
  · split
    · rfl
    · split <;> simp

theorem head?_simplify (p : Point K) (ps : List (Point K)) : (simplify (p :: ps)).head? = some p := by
  have kept : ∀ (ps out : List (Point K)), out ≠ [] → (ps.foldl addCorner out).getLast? = out.getLast? := by
    intro ps
    induction ps with
    | nil => intro out _; rfl
    | cons q ps ih =>
      intro out hout
      have hne : addCorner out q ≠ [] := by
        intro h
        have := head?_addCorner out q
        rw [h] at this
        cases this
      rw [List.foldl_cons, ih _ hne, getLast?_addCorner hout]
  unfold simplify
  rw [List.head?_reverse, List.foldl_cons]
  exact kept ps _ (by simp [addCorner])

theorem getLast?_simplify (ps : List (Point K)) (p : Point K) : (simplify (ps ++ [p])).getLast? = some p := by
  unfold simplify
  rw [List.getLast?_reverse, List.foldl_append]
  exact head?_addCorner _ p

section Simplify

variable {R : Point K → Point K → Prop} {ps out : List (Point K)} (hsymm : ∀ {p q}, R p q → R q p)

omit [Field K] [LinearOrder K] [FloorRing K] [Elementary K] in
include hsymm in
theorem isChain_reverse_iff : out.reverse.IsChain R ↔ out.IsChain R := by
  rw [List.isChain_reverse]
  exact ⟨fun h => h.imp fun _ _ => hsymm, fun h => h.imp fun _ _ => hsymm⟩

variable (hline : ∀ {p m q}, inLine p m q = true → R p m → R m q → R p q)

include hsymm hline

/-- A point is added to corners that stand last first. -/
theorem isChain_addCorner (hout : out.IsChain R) (hp : ∀ q ∈ out.head?, R q p) : (addCorner out p).IsChain R := by
  unfold addCorner
  split
  · exact .singleton p
  · next q =>
    split
    · exact hout
    · exact List.isChain_cons_cons.2 ⟨hsymm (hp q rfl), .singleton q⟩
  · next q m rest =>
    have hqp : R q p := hp q rfl
    obtain ⟨hqm, hrest⟩ := List.isChain_cons_cons.1 hout
    split
    · exact hout
    · split
      · next h => exact List.isChain_cons_cons.2 ⟨hsymm (hline h (hsymm hqm) hqp), hrest⟩
      · exact List.isChain_cons_cons.2 ⟨hsymm hqp, hout⟩

/-- The same without the piece between the first two corners, which nothing is known of. -/
theorem isChain_dropLast_addCorner (hout : out.dropLast.IsChain R) (hp : 2 ≤ out.length → ∀ q ∈ out.head?, R q p) :
    (addCorner out p).dropLast.IsChain R := by
  unfold addCorner
  split
  · exact .nil
  · split
    · exact .nil
    · exact .singleton p
  · next q m rest =>
    have hqp : R q p := hp (by simp) q rfl
    split
    · exact hout
    · split
      · next h =>
        cases rest with
        | nil => exact .singleton p
        | cons k rest =>
          rw [List.dropLast_cons_cons, List.dropLast_cons_cons] at hout ⊢
          obtain ⟨hqm, hrest⟩ := List.isChain_cons_cons.1 hout
          exact List.isChain_cons_cons.2 ⟨hsymm (hline h (hsymm hqm) hqp), hrest⟩
      · rw [List.dropLast_cons_cons] at hout ⊢
        exact List.isChain_cons_cons.2 ⟨hsymm hqp, hout⟩

theorem isChain_foldl (hout : out.IsChain R) (h : (out.head?.toList ++ ps).IsChain R) :
    (ps.foldl addCorner out).IsChain R := by
  induction ps generalizing out with
  | nil => exact hout
  | cons p ps ih =>
    refine ih (isChain_addCorner hsymm hline hout fun q hq => ?_) ?_
    · rw [Option.mem_def.1 hq] at h
      exact (List.isChain_cons_cons.1 h).1
    · rw [head?_addCorner]
      exact h.right_of_append

theorem isChain_dropLast_foldl (hout : out.dropLast.IsChain R)
    (hhead : 2 ≤ out.length → (out.head?.toList ++ ps).IsChain R) (h : ps.IsChain R) :
    (ps.foldl addCorner out).dropLast.IsChain R := by
  induction ps generalizing out with
  | nil => exact hout
  | cons p ps ih =>
    refine ih (isChain_dropLast_addCorner hsymm hline hout fun hlen q hq => ?_) (fun _ => ?_) h.tail
    · have := hhead hlen
      rw [Option.mem_def.1 hq] at this
      exact (List.isChain_cons_cons.1 this).1
    · rw [head?_addCorner]
      exact h

/-- What holds of all pieces holds of those of the simplified route. -/
theorem isChain_simplify (h : ps.IsChain R) : (simplify ps).IsChain R := by
  rw [simplify, isChain_reverse_iff hsymm]
  exact isChain_foldl hsymm hline .nil h

/-- What holds of all pieces behind the first holds of those of the simplified route. -/
theorem isChain_tail_simplify (h : ps.tail.IsChain R) : (simplify ps).tail.IsChain R := by
  rw [simplify, List.tail_reverse, isChain_reverse_iff hsymm]
  cases ps with
  | nil => exact .nil
  | cons p ps =>
    show (ps.foldl addCorner [p]).dropLast.IsChain R
    exact isChain_dropLast_foldl hsymm hline .nil (fun hlen => absurd hlen (by simp)) h

/-- What holds of all pieces before the last holds of those of the simplified route. -/
theorem isChain_dropLast_simplify (h : ps.dropLast.IsChain R) : (simplify ps).dropLast.IsChain R := by
  rw [simplify, List.dropLast_reverse, isChain_reverse_iff hsymm]
  rcases List.eq_nil_or_concat' ps with rfl | ⟨ps, p, rfl⟩
  · exact .nil
  · rw [List.dropLast_concat] at h
    have hout : (ps.foldl addCorner []).IsChain R := isChain_foldl hsymm hline .nil h
    rw [List.foldl_append, List.foldl_cons, List.foldl_nil]
    generalize ps.foldl addCorner [] = out at hout ⊢
    unfold addCorner
    split
    · exact .nil
    · split
      · exact .nil
      · exact .singleton _
    · split
      · exact hout.tail
      · split
        · exact hout.tail
        · exact hout

end Simplify

end Route

end DiagramMarkup
