import DiagramMarkup.Proofs.Arguments
import DiagramMarkup.Proofs.Moves
import DiagramMarkup.Proofs.Strokes

/-!
# Around and within other boxes

An element may be placed around other boxes or within all of them, with a margin.

1. With exact numbers, the box around boxes holds each of them (`Box.within_unionAll`), and what lies in the common part
   is what lies in each of them (`Box.within_intersectAll`).
2. Boxes of integers are joined, cut and shrunk without an error (`Box.Counts`), and so is what a shape writes to fill a
   box (`exists_box?_setBox`).
3. A margin moves the sides out, or in as far as there is room (`Margin.within_apply`, `Margin.apply_within_iff`).
4. So a rectangle around boxes holds them all, and a shape within boxes lies in all of them unless its margins are too
   large (`enclosed_iff`).
-/

namespace DiagramMarkup

open Number (Measures)

/-! ## Exact boxes -/

namespace Box

theorem Within.trans {K : Type} [LinearOrder K] {b c d : Box K} (h : b.Within c) (h' : c.Within d) : b.Within d :=
  ⟨⟨h'.1.1.trans h.1.1, h.1.2.trans h'.1.2⟩, h'.2.1.trans h.2.1, h.2.2.trans h'.2.2⟩

/-- The corners are those at the upper left and the lower right. -/
def Upright {K : Type} [LinearOrder K] (b : Box K) : Prop := b.x1 ≤ b.x2 ∧ b.y1 ≤ b.y2

variable {K : Type} [Field K] [LinearOrder K] [FloorRing K] [Elementary K] {b c r : Box K}

theorem upright_normalized (b : Box K) : b.normalized.Upright := ⟨min_le_max, min_le_max⟩

theorem Upright.normalized_eq (h : b.Upright) : b.normalized = b := by
  unfold normalized
  simp only [Scalar.least_eq_min, Scalar.greatest_eq_max, min_eq_left h.1, min_eq_left h.2, max_eq_right h.1,
    max_eq_right h.2]

theorem upright_union (b c : Box K) : (b.union c).Upright :=
  ⟨(min_le_left _ _).trans ((upright_normalized b).1.trans (le_max_left _ _)),
    (min_le_left _ _).trans ((upright_normalized b).2.trans (le_max_left _ _))⟩

theorem within_union_left (b c : Box K) : b.normalized.Within (b.union c) :=
  ⟨⟨min_le_left _ _, le_max_left _ _⟩, min_le_left _ _, le_max_left _ _⟩

theorem within_union_right (b c : Box K) : c.normalized.Within (b.union c) :=
  ⟨⟨min_le_right _ _, le_max_right _ _⟩, min_le_right _ _, le_max_right _ _⟩

theorem within_foldl_union (cs : List (Box K)) (h : b.Upright) :
    (cs.foldl union b).Upright ∧ b.Within (cs.foldl union b) ∧ ∀ c ∈ cs, c.normalized.Within (cs.foldl union b) := by
  induction cs generalizing b with
  | nil => exact ⟨h, within_refl b, nofun⟩
  | cons c cs ih =>
    obtain ⟨hupright, hwithin, hall⟩ := ih (upright_union b c)
    have hleft := within_union_left b c
    rw [h.normalized_eq] at hleft
    exact ⟨hupright, hleft.trans hwithin, List.forall_mem_cons.2 ⟨(within_union_right b c).trans hwithin, hall⟩⟩

/-- Every box lies in the box around all. -/
theorem within_unionAll {bs : List (Box K)} (h : unionAll? bs = some r) :
    r.Upright ∧ ∀ b ∈ bs, b.normalized.Within r := by
  cases bs with
  | nil => cases h
  | cons b bs =>
    cases h
    obtain ⟨hupright, hwithin, hall⟩ := within_foldl_union bs (upright_normalized b)
    exact ⟨hupright, List.forall_mem_cons.2 ⟨hwithin, hall⟩⟩

variable [IsStrictOrderedRing K]

/-- What lies in the common part lies in both. -/
theorem within_intersect (h : b.intersect? c = some r) :
    r.Upright ∧ ∀ d : Box K, d.Within r ↔ d.Within b.normalized ∧ d.Within c.normalized := by
  rw [intersect?_eq] at h
  split at h
  · cases h
  · next hsep =>
    cases h
    refine ⟨?_, fun d => ?_⟩
    · have hzero : ¬((b.overlap c).x2 - (b.overlap c).x1 < 0 ∨ (b.overlap c).y2 - (b.overlap c).y1 < 0) := by
        rw [← Scalar.zero_eq (K := K)]
        exact hsep
      rw [not_or, not_lt, not_lt, sub_nonneg, sub_nonneg] at hzero
      exact hzero
    · have hx1 : (b.overlap c).x1 ≤ d.x1 ↔ _ := max_le_iff
      have hx2 : d.x2 ≤ (b.overlap c).x2 ↔ _ := le_min_iff
      have hy1 : (b.overlap c).y1 ≤ d.y1 ↔ _ := max_le_iff
      have hy2 : d.y2 ≤ (b.overlap c).y2 ↔ _ := le_min_iff
      unfold Within
      rw [hx1, hx2, hy1, hy2]
      constructor
      · rintro ⟨⟨⟨h1, h2⟩, h3, h4⟩, ⟨h5, h6⟩, h7, h8⟩
        exact ⟨⟨⟨h1, h3⟩, h5, h7⟩, ⟨h2, h4⟩, h6, h8⟩
      · rintro ⟨⟨⟨h1, h3⟩, h5, h7⟩, ⟨h2, h4⟩, h6, h8⟩
        exact ⟨⟨⟨h1, h2⟩, h3, h4⟩, ⟨h5, h6⟩, h7, h8⟩

theorem within_foldlM_intersect (cs : List (Box K)) (hb : b.Upright) (h : cs.foldlM intersect? b = some r) :
    r.Upright ∧ ∀ d : Box K, d.Within r ↔ d.Within b ∧ ∀ c ∈ cs, d.Within c.normalized := by
  induction cs generalizing b with
  | nil =>
    cases h
    exact ⟨hb, fun d => by simp⟩
  | cons c cs ih =>
    rw [List.foldlM_cons] at h
    obtain ⟨a, ha, hrest⟩ := Option.bind_eq_some_iff.1 h
    obtain ⟨hupright, hiff⟩ := within_intersect ha
    obtain ⟨hupright, hall⟩ := ih hupright hrest
    refine ⟨hupright, fun d => ?_⟩
    rw [hall, hiff, hb.normalized_eq, List.forall_mem_cons, and_assoc]

/-- The boxes that lie in the common part of all are those that lie in each. -/
theorem within_intersectAll {bs : List (Box K)} (h : intersectAll? bs = some r) :
    r.Upright ∧ ∀ d : Box K, d.Within r ↔ ∀ b ∈ bs, d.Within b.normalized := by
  cases bs with
  | nil => cases h
  | cons b bs =>
    obtain ⟨hupright, hall⟩ := within_foldlM_intersect bs (upright_normalized b) h
    exact ⟨hupright, fun d => by rw [hall, List.forall_mem_cons]⟩

end Box

/-! ## Boxes of integers -/

/-- The box lies in the other one, possibly at its sides. -/
def Box.Inside {α : Type} [Scalar α] (b c : Box α) : Prop :=
  (c.normalized.x1 ≤ b.normalized.x1 ∧ b.normalized.x2 ≤ c.normalized.x2) ∧
    c.normalized.y1 ≤ b.normalized.y1 ∧ b.normalized.y2 ≤ c.normalized.y2

theorem Box.Measures.inside_iff {A B : Nat} {b b' : Box Float} {c c' : Box ℚ} [Elementary ℚ] (h : b.Measures A c)
    (h' : b'.Measures B c') : b.Inside b' ↔ c.normalized.Within c'.normalized :=
  and_congr (and_congr (h'.normalized.x1.denotes.le_iff h.normalized.x1.denotes)
      (h.normalized.x2.denotes.le_iff h'.normalized.x2.denotes))
    (and_congr (h'.normalized.y1.denotes.le_iff h.normalized.y1.denotes)
      (h.normalized.y2.denotes.le_iff h'.normalized.y2.denotes))

/-- The number is an integer. -/
def IsWhole (r : ℚ) : Prop := r ∈ (Int.castRingHom ℚ).range

namespace IsWhole

variable {p r : ℚ}

theorem add (hp : IsWhole p) (hr : IsWhole r) : IsWhole (p + r) := add_mem hp hr

theorem sub (hp : IsWhole p) (hr : IsWhole r) : IsWhole (p - r) := sub_mem hp hr

theorem min (hp : IsWhole p) (hr : IsWhole r) : IsWhole (min p r) := by
  rcases min_choice p r with h | h <;> rw [h] <;> assumption

theorem max (hp : IsWhole p) (hr : IsWhole r) : IsWhole (max p r) := by
  rcases max_choice p r with h | h <;> rw [h] <;> assumption

/-- Half an integer is found without an error. -/
theorem halved {A : Nat} {x : Float} (hr : IsWhole r) (h : Measures A x r) (hA : A ≤ 2 ^ 52) :
    Measures A (x / Scalar.two) (r / 2) := by
  obtain ⟨k, rfl⟩ := hr
  exact Measures.halved (k := k) h hA

end IsWhole

/-- The coordinates of the box stand for integers of at most this size. -/
structure Box.Counts (B : Nat) (b : Box Float) (c : Box ℚ) : Prop extends Box.Measures B b c where
  whole : (IsWhole c.x1 ∧ IsWhole c.x2) ∧ IsWhole c.y1 ∧ IsWhole c.y2

namespace Box.Counts

variable {A B : Nat} {b b' : Box Float} {c c' : Box ℚ} [Elementary ℚ]

theorem normalized (h : b.Counts A c) : b.normalized.Counts A c.normalized where
  toMeasures := h.toMeasures.normalized
  whole := ⟨⟨h.whole.1.1.min h.whole.1.2, h.whole.1.1.max h.whole.1.2⟩, h.whole.2.1.min h.whole.2.2,
    h.whole.2.1.max h.whole.2.2⟩

theorem union (h : b.Counts A c) (h' : b'.Counts A c') : (b.union b').Counts A (c.union c') where
  toMeasures := h.toMeasures.union h'.toMeasures
  whole :=
    have hw := h.normalized.whole
    have hw' := h'.normalized.whole
    ⟨⟨hw.1.1.min hw'.1.1, hw.1.2.max hw'.1.2⟩, hw.2.1.min hw'.2.1, hw.2.2.max hw'.2.2⟩

theorem intersect? (h : b.Counts A c) (h' : b'.Counts A c') (hA : A + A ≤ 2 ^ 52) :
    Option.Rel (Box.Counts A) (b.intersect? b') (c.intersect? c') := by
  have hrel := h.toMeasures.intersect? h'.toMeasures hA
  have hw := h.normalized.whole
  have hw' := h'.normalized.whole
  rw [intersect?_eq c] at hrel ⊢
  split at hrel
  · next hsep =>
    rw [if_pos hsep]
    generalize b.intersect? b' = o at hrel
    cases hrel
    exact .none
  · next hsep =>
    rw [if_neg hsep]
    generalize b.intersect? b' = o at hrel
    cases hrel with
    | some hm => exact .some ⟨hm, ⟨hw.1.1.max hw'.1.1, hw.1.2.min hw'.1.2⟩, hw.2.1.max hw'.2.1, hw.2.2.min hw'.2.2⟩

theorem expandSides {t r u l : Float} {t' r' u' l' : ℚ} (h : b.Counts A c) (ht : Number.Measures B t t')
    (hr : Number.Measures B r r') (hu : Number.Measures B u u') (hl : Number.Measures B l l')
    (hw : (IsWhole l' ∧ IsWhole r') ∧ IsWhole t' ∧ IsWhole u') (hAB : A + B ≤ 2 ^ 52) :
    (b.expandSides t r u l).Counts (A + B) (c.expandSides t' r' u' l') where
  toMeasures := h.toMeasures.expandSides ht hr hu hl hAB
  whole :=
    have hn := h.normalized.whole
    ⟨⟨hn.1.1.sub hw.1.1, hn.1.2.add hw.1.2⟩, hn.2.1.sub hw.2.1, hn.2.2.add hw.2.2⟩

variable {bs : List (Box Float)} {cs : List (Box ℚ)}

theorem unionAll? (h : List.Forall₂ (Box.Counts A) bs cs) :
    Option.Rel (Box.Counts A) (Box.unionAll? bs) (Box.unionAll? cs) := by
  cases h with
  | nil => exact .none
  | cons hb hrest => exact .some (List.rel_foldl (fun _ _ hu _ _ h => hu.union h) hb.normalized hrest)

theorem intersectAll? (h : List.Forall₂ (Box.Counts A) bs cs) (hA : A + A ≤ 2 ^ 52) :
    Option.Rel (Box.Counts A) (Box.intersectAll? bs) (Box.intersectAll? cs) := by
  have hfold : ∀ {bs cs b c}, List.Forall₂ (Box.Counts A) bs cs → Box.Counts A b c →
      Option.Rel (Box.Counts A) (bs.foldlM Box.intersect? b) (cs.foldlM Box.intersect? c) := by
    intro bs cs b c hbs
    induction hbs generalizing b c with
    | nil => exact fun hb => .some hb
    | @cons b' c' bs cs hb' _ ih =>
      intro hb
      rw [List.foldlM_cons, List.foldlM_cons]
      have hrel := hb.intersect? hb' hA
      generalize b.intersect? b' = o at hrel
      generalize c.intersect? c' = o' at hrel
      cases hrel with
      | none => exact .none
      | some h => exact ih h
  cases h with
  | nil => exact .none
  | cons hb hrest => exact hfold hrest hb.normalized

end Box.Counts

/-! ## The box that is written -/

/-- The box of a sized shape that is put into a box. A circle fills the middle of it. -/
def Shape.filling (c : Box ℚ) : Shape → Box ℚ
  | .circle =>
    let r := min |c.x2 - c.x1| |c.y2 - c.y1| / 2
    ⟨(c.x1 + c.x2) / 2 - r, (c.y1 + c.y2) / 2 - r, (c.x1 + c.x2) / 2 + r, (c.y1 + c.y2) / 2 + r⟩
  | _ => ⟨min c.x1 c.x2, min c.y1 c.y2, max c.x1 c.x2, max c.y1 c.y2⟩

namespace Element

variable {A : Nat} {el : Element} {s : Shape} {b : Box Float} {c : Box ℚ}

/-- A sized shape that is put into a box has the box that fills it. -/
theorem exists_box?_setBox (hs : el.shape? = some s) (hsized : s.sized) (h : b.Counts A c) (hA : 8 * A ≤ 2 ^ 52) :
    ∃ b', (el.setBox b).box? = .ok (some b') ∧ b'.Measures (4 * A) (s.filling c) := by
  let := Elementary.rough
  have hnone : ReadsAll (2 * A) el [] fun _ => none := nofun
  have hn := h.normalized
  have hdouble : A + A ≤ 2 * A := by omega
  have hwidth := (hn.width (by omega)).mono hdouble
  have hheight := (hn.height (by omega)).mono hdouble
  have hx := ((h.whole.1.1.add h.whole.1.2).halved (h.x1.add h.x2 (by omega)) (by omega)).mono hdouble
  have hy := ((h.whole.2.1.add h.whole.2.2).halved (h.y1.add h.y2 (by omega)) (by omega)).mono hdouble
  have hwholew := hn.whole.1.2.sub hn.whole.1.1
  have hwholeh := hn.whole.2.2.sub hn.whole.2.1
  have hlow : ∀ x y : ℚ, (x + y) / 2 - (max x y - min x y) / 2 = min x y := fun x y => by
    linarith [min_add_max x y]
  have hhigh : ∀ x y : ℚ, (x + y) / 2 + (max x y - min x y) / 2 = max x y := fun x y => by
    linarith [min_add_max x y]
  -- The attributes that are written, and the box they describe.
  obtain ⟨f, hf, hbox⟩ : ∃ f, ReadsAll (2 * A) (el.setBox b) s.numbers f ∧ s.boxOf f = some (s.filling c) := by
    unfold setBox
    rw [hs]
    cases s with
    | box =>
      have hset := (((hnone.setNumber "x" (hn.x1.mono (by omega))).setNumber "y" (hn.y1.mono (by omega))).setNumber
        "width" hwidth).setNumber "height" hheight
      refine ⟨_, hset.subset (by decide), ?_⟩
      simp [Shape.boxOf, Shape.filling, Box.normalized, Box.width, Box.height]
    | circle =>
      have hset := ((hnone.setNumber "cx" hx).setNumber "cy" hy).setNumber "r"
        ((hwholew.min hwholeh).halved (hwidth.least hheight) (by omega))
      refine ⟨_, hset.subset (by decide), ?_⟩
      simp [Shape.boxOf, Shape.filling, Box.normalized, max_sub_min_eq_abs]
    | ellipse =>
      have hset := (((hnone.setNumber "cx" hx).setNumber "cy" hy).setNumber "rx"
        (hwholew.halved hwidth (by omega))).setNumber "ry" (hwholeh.halved hheight (by omega))
      refine ⟨_, hset.subset (by decide), ?_⟩
      simp [Shape.boxOf, Shape.filling, Box.normalized, hlow, hhigh]
    | line | points | path | point => cases hsized
  have hshape : (el.setBox b).shape? = some s := by
    rw [← hs]
    unfold setBox
    split <;> rfl
  have hkind : s ≠ .points ∧ s ≠ .path := by
    constructor <;> rintro rfl <;> cases hsized
  obtain ⟨ob, hob, hrel⟩ := exists_box? hshape hkind hf (by omega)
  rw [hbox] at hrel
  cases hrel with
  | some hb => exact ⟨_, hob, hb.mono (by omega)⟩

end Element

namespace Shape

variable [Elementary ℚ] (c : Box ℚ) (s : Shape)

theorem upright_filling : (s.filling c).Upright := by
  cases s with
  | circle =>
    have hr : 0 ≤ min |c.x2 - c.x1| |c.y2 - c.y1| / 2 := by positivity
    constructor <;> simp only [filling] <;> linarith
  | _ => exact c.upright_normalized

theorem filling_within : (s.filling c).Within c.normalized := by
  cases s with
  | circle =>
    have hx := max_sub_min_eq_abs c.x1 c.x2
    have hy := max_sub_min_eq_abs c.y1 c.y2
    have hsumx := min_add_max c.x1 c.x2
    have hsumy := min_add_max c.y1 c.y2
    have hrx := min_le_left |c.x2 - c.x1| |c.y2 - c.y1|
    have hry := min_le_right |c.x2 - c.x1| |c.y2 - c.y1|
    refine ⟨⟨?_, ?_⟩, ?_, ?_⟩ <;>
      simp only [filling, Box.normalized, Scalar.least_eq_min, Scalar.greatest_eq_max] <;> linarith
  | _ => exact Box.within_refl _

theorem filling_of_ne (h : s ≠ .circle) : s.filling c = c.normalized := by
  cases s with
  | circle => exact absurd rfl h
  | _ => rfl

end Shape

/-! ## Margins -/

namespace Position.Margin

section Scalars

variable {α : Type}

/-- The margin of one, two or four amounts. -/
def ofAmounts? : List α → Option (Margin α)
  | [x] => some ⟨x, x, x, x⟩
  | [x, y] => some ⟨y, x, y, x⟩
  | [t, r, b, l] => some ⟨t, r, b, l⟩
  | _ => none

/-- No amount is larger than the box. -/
def Fits [Scalar α] (m : Margin α) (b : Box α) : Prop :=
  (m.left ≤ b.width ∧ m.right ≤ b.width) ∧ m.top ≤ b.height ∧ m.bottom ≤ b.height

end Scalars

/-- No amount is negative. -/
def Nonneg (k : Margin ℚ) : Prop := (0 ≤ k.left ∧ 0 ≤ k.right) ∧ 0 ≤ k.top ∧ 0 ≤ k.bottom

/-- The amounts stand for natural numbers of at most this size. -/
structure Counts (B : Nat) (m : Margin Float) (k : Margin ℚ) : Prop where
  top : Measures B m.top k.top
  right : Measures B m.right k.right
  bottom : Measures B m.bottom k.bottom
  left : Measures B m.left k.left
  whole : (IsWhole k.left ∧ IsWhole k.right) ∧ IsWhole k.top ∧ IsWhole k.bottom
  nonneg : k.Nonneg

variable {A B : Nat} {m : Margin Float} {k : Margin ℚ} {b : Box Float} {c : Box ℚ}

variable [Elementary ℚ]

theorem fits_iff (hm : m.Counts B k) (h : Box.Counts A b c) (hA : A + A ≤ 2 ^ 52) : m.Fits b ↔ k.Fits c :=
  and_congr (and_congr (hm.left.denotes.le_iff (h.width hA).denotes) (hm.right.denotes.le_iff (h.width hA).denotes))
    (and_congr (hm.top.denotes.le_iff (h.height hA).denotes) (hm.bottom.denotes.le_iff (h.height hA).denotes))

theorem counts_apply (hm : m.Counts B k) (inside : Bool) (h : Box.Counts A b c) (hAB : A + B ≤ 2 ^ 52) :
    (m.apply inside b).Counts (A + B) (k.apply inside c) := by
  have hneg : ∀ {r}, IsWhole r → IsWhole (-r) := fun hr => neg_mem hr
  cases inside with
  | false => exact h.expandSides hm.top hm.right hm.bottom hm.left hm.whole hAB
  | true =>
    exact h.expandSides hm.top.neg hm.right.neg hm.bottom.neg hm.left.neg
      ⟨⟨hneg hm.whole.1.1, hneg hm.whole.1.2⟩, hneg hm.whole.2.1, hneg hm.whole.2.2⟩ hAB

theorem apply_zero (inside : Bool) (h : c.Upright) : (⟨0, 0, 0, 0⟩ : Margin ℚ).apply inside c = c := by
  cases inside <;> simp [apply, Box.expandSides, h.normalized_eq]

/-- A box lies in itself with a margin around it. -/
theorem within_apply (hk : k.Nonneg) (h : c.Upright) :
    (k.apply false c).Upright ∧ c.Within (k.apply false c) := by
  obtain ⟨hx, hy⟩ := h
  obtain ⟨⟨hleft, hright⟩, htop, hbottom⟩ := hk
  have happly : k.apply false c = ⟨c.x1 - k.left, c.y1 - k.top, c.x2 + k.right, c.y2 + k.bottom⟩ := by
    simp [apply, Box.expandSides, Box.Upright.normalized_eq ⟨hx, hy⟩]
  rw [happly]
  refine ⟨⟨?_, ?_⟩, ⟨?_, ?_⟩, ?_, ?_⟩ <;> simp only <;> linarith

/-- A box holds itself with a margin inside if and only if the margin fits. -/
theorem apply_within_iff (hk : k.Nonneg) (h : c.Upright) :
    (k.apply true c).normalized.Within c ↔ k.Fits c := by
  have happly : k.apply true c = ⟨c.x1 + k.left, c.y1 + k.top, c.x2 - k.right, c.y2 - k.bottom⟩ := by
    simp [apply, Box.expandSides, h.normalized_eq, sub_eq_add_neg]
  have hfits : k.Fits c ↔ (k.left ≤ c.x2 - c.x1 ∧ k.right ≤ c.x2 - c.x1) ∧ k.top ≤ c.y2 - c.y1 ∧
    k.bottom ≤ c.y2 - c.y1 := Iff.rfl
  obtain ⟨⟨hleft, hright⟩, htop, hbottom⟩ := hk
  rw [happly, hfits]
  unfold Box.Within Box.normalized
  simp only [Scalar.least_eq_min, Scalar.greatest_eq_max, le_min_iff, max_le_iff]
  constructor
  · rintro ⟨⟨⟨-, h1⟩, h2, -⟩, ⟨-, h3⟩, h4, -⟩
    refine ⟨⟨?_, ?_⟩, ?_, ?_⟩ <;> linarith
  · rintro ⟨⟨h1, h2⟩, h3, h4⟩
    refine ⟨⟨⟨?_, ?_⟩, ?_, ?_⟩, ⟨?_, ?_⟩, ?_, ?_⟩ <;> linarith

end Position.Margin

/-! ## Settling the position -/

namespace Position

open Element

variable {refs : Referrer Float} {el fl : Element} {shape : Shape} {inside : Bool} {attr v : String}
  {boxes : List (Box Float)} {b : Box Float} {m : Margin Float}

theorem exec_encloseBy_none (h : el.get? attr = none) :
    exec (encloseBy refs shape inside attr) el = (.ok (), el) := by
  unfold encloseBy
  rw [exec_take_bind, h, erase_eq_self h]
  rfl

theorem exec_sizeByPair_none (h : el.get? "wh" = none) : exec (sizeByPair refs shape) el = (.ok (), el) := by
  unfold sizeByPair
  rw [exec_take_bind, h, erase_eq_self h]
  rfl

theorem exec_sizeByDelta_none (hw : el.get? "dw" = none) (hh : el.get? "dh" = none) :
    exec (sizeByDelta Float shape) el = (.ok (), el) := by
  unfold sizeByDelta
  rw [exec_take_bind, hw, erase_eq_self hw, exec_take_bind, hh, erase_eq_self hh]
  rfl

theorem exec_shiftOf_none (h : el.get? attr = none) : exec (shiftOf Float attr) el = (.ok Scalar.zero, el) := by
  unfold shiftOf
  rw [exec_take_bind, h, erase_eq_self h]
  rfl

/-- Nothing is done about the place of an element without attributes for it. -/
theorem exec_locate_none (hline : shape ≠ .line)
    (h : ∀ a ∈ ["xy-loc", "cxy", "xy", "dx", "dy"], el.get? a = none) : exec (locate refs shape) el = (.ok (), el) := by
  have hloc : el.get? "xy-loc" = none := h _ (by decide)
  have hcxy : el.get? "cxy" = none := h _ (by decide)
  have hxy : el.get? "xy" = none := h _ (by decide)
  have hends : exec (placeEnds refs shape) el = (.ok (), el) := by
    unfold placeEnds
    rw [if_neg (by simpa using hline)]
    rfl
  have hown : exec ownLoc el = (.ok .topLeft, el) := by
    unfold ownLoc
    rw [exec_take_bind, hloc, erase_eq_self hloc]
    rfl
  have hplace : exec (placeByEither refs shape .topLeft none none) el = (.ok (), el) := rfl
  unfold locate
  rw [exec_bind_ok hends, exec_bind_ok hown, exec_take_bind, hcxy, erase_eq_self hcxy, exec_take_bind, hxy,
    erase_eq_self hxy, exec_bind_ok hplace, exec_bind_ok (exec_shiftOf_none (h _ (by decide))),
    exec_bind_ok (exec_shiftOf_none (h _ (by decide)))]
  unfold editing
  rw [exec_bind_ok (exec_get el)]
  have hmove : (translate (Scalar.zero : Float) Scalar.zero).run el = (.ok (), el) :=
    exec_translate_zero Measures.zero Measures.zero
  simp only [hmove]
  rfl

/-- The attribute with the references that a box is within or around. -/
def enclosing (inside : Bool) : String := if inside then "inside" else "surround"

/-- An element that is placed by references, and by a margin at most, is settled by this alone. -/
theorem resolve_eq (hshape : el.shape? = some shape) (hline : shape ≠ .line)
    (honly : ∀ a ∈ attributes, a ≠ enclosing inside → a ≠ "margin" → el.get? a = none)
    (hv : el.get? (enclosing inside) = some v) :
    resolve refs el = match exec (encloseBy refs shape inside (enclosing inside)) el with
      | (.ok (), fl) => .ok fl
      | (.error f, _) => .error f := by
  have hhas : has el = true := by
    unfold has
    refine List.any_eq_true.2 ⟨enclosing inside, ?_, by rw [has_eq_isSome, hv]; rfl⟩
    cases inside <;> decide
  -- Nothing but the references is worked on.
  have hrest : ∀ {fl}, exec (encloseBy refs shape inside (enclosing inside)) el = (.ok (), fl) →
      exec (do sizeByPair refs shape; sizeByDelta Float shape; locate refs shape) fl = (.ok (), fl) ∧
        fl.get? "inside" = none := by
    intro fl hfl
    have hspent := spends_encloseBy refs shape inside (enclosing inside) () fl hfl
    have hnone : ∀ a ∈ attributes, a ≠ "margin" → fl.get? a = none := by
      intro a ha hmargin
      rw [hspent a ha]
      exact ite_eq_left_iff.2 fun hns => honly a ha (fun h => hns (h ▸ List.mem_cons_self)) hmargin
    refine ⟨?_, hnone _ (by decide) (by decide)⟩
    rw [exec_bind_ok (exec_sizeByPair_none (hnone _ (by decide) (by decide))),
      exec_bind_ok (exec_sizeByDelta_none (hnone _ (by decide) (by decide)) (hnone _ (by decide) (by decide)))]
    refine exec_locate_none hline fun a ha => hnone a ?_ ?_ <;> revert a <;> decide
  have hrun : exec (do sizes refs shape; locate refs shape) el =
      exec (encloseBy refs shape inside (enclosing inside)) el := by
    unfold sizes
    simp only [bind_assoc]
    cases inside with
    | true =>
      rw [exec_bind_ok (exec_encloseBy_none (honly _ (by decide) (by decide) (by decide))), exec_bind]
      split
      · next hfl => rw [(hrest hfl).1]; exact hfl.symm
      · next hfl => exact hfl.symm
    | false =>
      rw [exec_bind]
      split
      · next hfl =>
        obtain ⟨hlater, hinside⟩ := hrest hfl
        rw [exec_bind_ok (exec_encloseBy_none hinside), hlater]
        exact hfl.symm
      · next hfl => exact hfl.symm
  unfold resolve
  rw [hshape, ← hrun]
  simp only [hhas, Bool.not_true, Bool.false_eq_true, if_false]
  rfl

/-- The element has no margin, or one of absolute amounts. -/
def HasMargin (el : Element) (m : Margin Float) : Prop :=
  match el.get? "margin" with
  | none => m = ⟨Scalar.zero, Scalar.zero, Scalar.zero, Scalar.zero⟩
  | some s => ∃ xs, (Numbers.split s).mapM parseDelta = .ok (xs.map Length.absolute) ∧ Margin.ofAmounts? xs = some m

theorem parse_eq_of_amounts {s : String} {xs : List Float}
    (hs : (Numbers.split s).mapM parseDelta = .ok (xs.map Length.absolute)) (hm : Margin.ofAmounts? xs = some m)
    (b : Box Float) : Margin.parse s b = .ok m := by
  unfold Margin.parse
  rw [hs]
  match xs, hm with
  | [_], rfl | [_, _], rfl | [_, _, _, _], rfl => rfl

/-- The box with the margin of the element. -/
theorem exists_margined {A B : Nat} {k : Margin ℚ} {c : Box ℚ} [Elementary ℚ] (hm : HasMargin el m)
    (hk : m.Counts B k) (hb : b.Counts A c) (hc : c.Upright) (hAB : A + B ≤ 2 ^ 52) :
    ∃ b', exec (margined inside b) el = (.ok b', el.erase "margin") ∧ b'.Counts (A + B) (k.apply inside c) := by
  unfold margined
  unfold HasMargin at hm
  rw [exec_take_bind]
  cases hget : el.get? "margin" with
  | none =>
    rw [hget] at hm
    subst hm
    have hzero : ∀ {r}, Measures B Scalar.zero r → r = 0 := fun h =>
      Number.denotes_unique h.denotes Measures.zero.denotes
    obtain ⟨t, r, u, l⟩ := k
    obtain rfl := hzero hk.top
    obtain rfl := hzero hk.right
    obtain rfl := hzero hk.bottom
    obtain rfl := hzero hk.left
    rw [Margin.apply_zero inside hc]
    exact ⟨b, rfl, hb.toMeasures.mono (Nat.le_add_right A B), hb.whole⟩
  | some s =>
    rw [hget] at hm
    obtain ⟨xs, hs, hxs⟩ := hm
    refine ⟨m.apply inside b, ?_, Margin.counts_apply hk inside hb hAB⟩
    simp only [parse_eq_of_amounts hs hxs]
    rfl

theorem exec_boxesOf (h : List.Forall₂ (fun t b => isRef t = true ∧ refs t = .ok b) (Text.words v) boxes)
    (hne : boxes ≠ []) : exec (boxesOf refs attr v) el = (.ok boxes, el) := by
  have hmap : ∀ {ts bs}, List.Forall₂ (fun t b => isRef t = true ∧ refs t = .ok b) ts bs →
      exec (ts.mapM fun t => do require (isRef t) attr (.notReference t); boxOf refs t) el = (.ok bs, el) := by
    intro ts bs hts
    induction hts with
    | nil => rfl
    | @cons t b ts bs htb _ ih =>
      have hbox : exec (do require (isRef t) attr (.notReference t); boxOf refs t) el = (.ok b, el) := by
        unfold require boxOf
        rw [htb.1, htb.2]
        rfl
      rw [exec_mapM_cons, exec_bind_ok hbox, exec_bind_ok ih]
      rfl
  have hrequire : exec (require (!(Text.words v).isEmpty) attr .noReferences) el = (.ok (), el) := by
    generalize Text.words v = ts at h
    cases h with
    | nil => exact absurd rfl hne
    | cons _ _ => rfl
  unfold boxesOf
  rw [exec_bind_ok hrequire, hmap h]

/-- The element is placed by its references to these boxes and by this margin, and by nothing else. -/
structure PlacedBy (refs : Referrer Float) (el : Element) (inside : Bool) (boxes : List (Box Float))
    (m : Margin Float) : Prop where
  only : ∀ a ∈ attributes, a ≠ enclosing inside → a ≠ "margin" → el.get? a = none
  listed : ∃ v, el.get? (enclosing inside) = some v ∧
    List.Forall₂ (fun t b => isRef t = true ∧ refs t = .ok b) (Text.words v) boxes
  nonempty : boxes ≠ []
  margin : HasMargin el m

/-- The box around all boxes of a list, or within all of them. -/
def common (inside : Bool) (boxes : List (Box Float)) : Option (Box Float) :=
  if inside then Box.intersectAll? boxes else Box.unionAll? boxes

theorem exec_combined : exec (combined inside v boxes) el = match common inside boxes with
    | some b => (.ok b, el)
    | none => (.error (.raise .document (some el) "" (.fault (.noOverlap v))), el) := by
  unfold combined common
  rw [exec_bind, exec_get]
  simp only
  split <;> next h => rw [h]; rfl

namespace PlacedBy

/-- The list of references is read, and what they have in common is taken. -/
theorem exists_exec_eq (h : PlacedBy refs el inside boxes m) (hsized : shape.sized) :
    ∃ v, el.get? (enclosing inside) = some v ∧ exec (encloseBy refs shape inside (enclosing inside)) el =
      exec (do
        let b ← margined inside (← combined inside v boxes)
        modify (·.setBox (if inside then b else circumscribed shape b))) (el.erase (enclosing inside)) := by
  obtain ⟨v, hv, hboxes⟩ := h.listed
  refine ⟨v, hv, ?_⟩
  have hrequire : ∀ fl, exec (requireSized shape (enclosing inside)) fl = (.ok (), fl) := by
    intro fl
    unfold requireSized require
    rw [hsized]
    rfl
  unfold encloseBy
  rw [exec_take_bind, hv]
  simp only
  unfold enclose
  rw [exec_bind_ok (hrequire _), exec_bind_ok (exec_boxesOf hboxes h.nonempty)]

theorem exists_common (h : PlacedBy refs el inside boxes m) (hshape : el.shape? = some shape) (hsized : shape.sized)
    (hfl : resolve refs el = .ok fl) : ∃ b, common inside boxes = some b := by
  have hline : shape ≠ .line := by
    rintro rfl
    cases hsized
  obtain ⟨v, hv, hexec⟩ := h.exists_exec_eq hsized
  rw [resolve_eq hshape hline h.only hv, hexec, exec_bind, exec_combined] at hfl
  cases hcommon : common inside boxes with
  | none =>
    rw [hcommon] at hfl
    cases hfl
  | some b => exact ⟨b, rfl⟩

/-- The element gets the box that the references have in common, with its margin. -/
theorem exists_resolve {A B : Nat} {k : Margin ℚ} {c : Box ℚ} [Elementary ℚ] (h : PlacedBy refs el inside boxes m)
    (hshape : el.shape? = some shape) (hsized : shape.sized) (hcommon : common inside boxes = some b)
    (hk : m.Counts B k) (hb : b.Counts A c) (hc : c.Upright) (hAB : A + B ≤ 2 ^ 52) :
    ∃ (gl : Element) (b' : Box Float), gl.shape? = some shape ∧
      resolve refs el = .ok (gl.setBox (if inside then b' else circumscribed shape b')) ∧
      b'.Counts (A + B) (k.apply inside c) := by
  have hline : shape ≠ .line := by
    rintro rfl
    cases hsized
  have hmargin : HasMargin (el.erase (enclosing inside)) m := by
    have hne : "margin" ≠ enclosing inside := by cases inside <;> decide
    unfold HasMargin
    rw [get?_erase, if_neg hne]
    exact h.margin
  obtain ⟨v, hv, hexec⟩ := h.exists_exec_eq hsized
  obtain ⟨b', hb', hcounts⟩ := exists_margined hmargin hk hb hc hAB
  refine ⟨(el.erase (enclosing inside)).erase "margin", b', hshape, ?_, hcounts⟩
  have hcombined : exec (combined inside v boxes) (el.erase (enclosing inside)) =
      (.ok b, el.erase (enclosing inside)) := by rw [exec_combined, hcommon]
  rw [resolve_eq hshape hline h.only hv, hexec, exec_bind_ok hcombined, exec_bind_ok hb']
  rfl

theorem exists_around {u : Box ℚ} {k : Margin ℚ} {c : Box Float → Box ℚ} [Elementary ℚ]
    (h : PlacedBy refs el false boxes m) (hshape : el.shape? = some .box) (hk : m.Counts (2 ^ 48) k)
    (hc : ∀ b ∈ boxes, b.Counts (2 ^ 48) (c b)) (hu : Box.unionAll? (boxes.map c) = some u) :
    ∃ fl b, resolve refs el = .ok fl ∧ fl.box? = .ok (some b) ∧ ∀ d ∈ boxes, d.Inside b := by
  have hrel := Box.Counts.unionAll? (List.forall₂_map_right_iff.2 (List.forall₂_same.2 hc))
  rw [hu] at hrel
  generalize hb : Box.unionAll? boxes = o at hrel
  cases hrel with
  | some hbu =>
    obtain ⟨hupright, hwithin⟩ := Box.within_unionAll hu
    obtain ⟨hlarger, haround⟩ := Margin.within_apply hk.nonneg hupright
    obtain ⟨gl, b', hgl, hresolve, hb'⟩ := h.exists_resolve hshape rfl hb hk hbu hupright (by norm_num)
    obtain ⟨b'', hbox, hb''⟩ := exists_box?_setBox hgl rfl hb' (by norm_num)
    refine ⟨_, b'', hresolve, hbox, fun d hd => ?_⟩
    have hfilling : Shape.filling (k.apply false u) .box = k.apply false u := hlarger.normalized_eq
    rw [(hc d hd).toMeasures.inside_iff hb'', hfilling, hlarger.normalized_eq]
    exact (hwithin (c d) (List.mem_map_of_mem hd)).trans haround

theorem exists_within {k : Margin ℚ} {c : Box Float → Box ℚ} [Elementary ℚ] (h : PlacedBy refs el true boxes m)
    (hshape : el.shape? = some shape) (hsized : shape.sized) (hk : m.Counts (2 ^ 48) k)
    (hc : ∀ b ∈ boxes, b.Counts (2 ^ 48) (c b)) (hfl : resolve refs el = .ok fl) :
    ∃ b r, fl.box? = .ok (some b) ∧ Box.intersectAll? boxes = some r ∧ (m.Fits r → ∀ c ∈ boxes, b.Inside c) ∧
      (shape ≠ .circle → (∀ c ∈ boxes, b.Inside c) → m.Fits r) := by
  obtain ⟨b, hb⟩ : ∃ b, Box.intersectAll? boxes = some b := h.exists_common hshape hsized hfl
  have hrel := Box.Counts.intersectAll? (List.forall₂_map_right_iff.2 (List.forall₂_same.2 hc)) (by norm_num)
  rw [hb] at hrel
  generalize hr : Box.intersectAll? (boxes.map c) = o at hrel
  cases hrel with
  | @some _ r hbr =>
    obtain ⟨hupright, hwithin⟩ := Box.within_intersectAll hr
    obtain ⟨gl, b', hgl, hresolve, hb'⟩ := h.exists_resolve hshape hsized hb hk hbr hupright (by norm_num)
    obtain ⟨b'', hbox, hb''⟩ := exists_box?_setBox hgl hsized hb' (by norm_num)
    cases hfl.symm.trans hresolve
    have hinside : (∀ d ∈ boxes, b''.Inside d) ↔ (shape.filling (k.apply true r)).Within r := by
      rw [hwithin, List.forall_mem_map]
      refine forall₂_congr fun d hd => ?_
      rw [hb''.inside_iff (hc d hd).toMeasures, (Shape.upright_filling _ _).normalized_eq]
    have hfits : m.Fits b ↔ (k.apply true r).normalized.Within r :=
      (Margin.fits_iff hk hbr (by norm_num)).trans (Margin.apply_within_iff hk.nonneg hupright).symm
    refine ⟨b'', b, hbox, hb, fun hfit => ?_, fun hcircle hin => ?_⟩
    · exact hinside.2 ((Shape.filling_within _ _).trans (hfits.1 hfit))
    · rw [hfits, ← Shape.filling_of_ne _ _ hcircle]
      exact hinside.1 hin

end PlacedBy

/-- A rectangle around boxes holds every one of them. A shape within boxes lies in every one of them if its margins fit
into their common part, and a rectangle or an ellipse only then: margins that are larger turn the box over, and what is
turned over sticks out. -/
theorem enclosed_iff (refs : Referrer Float) (hshape : el.shape? = some shape)
    (hboxes : ∀ b ∈ boxes, ∃ c, b.Counts (2 ^ 48) c) (hm : ∃ k, m.Counts (2 ^ 48) k) :
    (shape = .box → PlacedBy refs el false boxes m →
      ∃ fl b, resolve refs el = .ok fl ∧ fl.box? = .ok (some b) ∧ ∀ c ∈ boxes, c.Inside b) ∧
    (shape.sized → PlacedBy refs el true boxes m → ∀ fl, resolve refs el = .ok fl →
      ∃ b r, fl.box? = .ok (some b) ∧ Box.intersectAll? boxes = some r ∧ (m.Fits r → ∀ c ∈ boxes, b.Inside c) ∧
        (shape ≠ .circle → (∀ c ∈ boxes, b.Inside c) → m.Fits r)) := by
  let := Elementary.rough
  have : Nonempty (Box ℚ) := ⟨⟨0, 0, 0, 0⟩⟩
  choose! c hc using hboxes
  obtain ⟨k, hk⟩ := hm
  constructor
  · rintro rfl h
    obtain ⟨b, bs, hbs⟩ := List.exists_cons_of_ne_nil h.nonempty
    have hu : Box.unionAll? (boxes.map c) = some ((bs.map c).foldl Box.union (c b).normalized) := by
      rw [hbs]
      rfl
    exact h.exists_around hshape hk hc hu
  · exact fun hsized h fl hfl => h.exists_within hshape hsized hk hc hfl

/-- Two squares that overlap, the second with its corners the other way round. -/
def squares : List (Box Float) := [⟨0, 0, 8, 8⟩, ⟨16, 16, 2, 2⟩]

/-- The squares have the names `#a` and `^`. -/
def twoSquares (t : String) : Except Failure (Box Float) :=
  if t = "#a" then .ok ⟨0, 0, 8, 8⟩ else if t = "^" then .ok ⟨16, 16, 2, 2⟩ else .error (.deferred (.mk "" t []))

/-- A rectangle around the squares. -/
def outer : Element := .ofAttrs "rect" [("surround", "#a ^"), ("margin", "2 1")]

/-- An ellipse within the squares. -/
def inner : Element := .ofAttrs "ellipse" [("inside", "#a ^"), ("margin", "1")]

theorem enclosed_squares :
    (∃ fl b, resolve twoSquares outer = .ok fl ∧ fl.box? = .ok (some b) ∧ ∀ c ∈ squares, c.Inside b) ∧
      ∃ fl b, resolve twoSquares inner = .ok fl ∧ fl.box? = .ok (some b) ∧ ∀ c ∈ squares, b.Inside c := by
  have hpow : ∀ {x : Float} (j : Nat), j ≤ 48 → Number.reading x = .finite ⟨false, 2 ^ 52, j - 52⟩ →
      Measures (2 ^ 48) x ((2 ^ j : Nat) : Int) := by
    intro x j hj hx
    refine .of_denotes ⟨_, hx, ?_⟩ (Nat.pow_le_pow_right (by decide) hj)
    simp [Number.Exact.value, zpow_sub₀]
    ring
  have hwhole : ∀ n : Int, IsWhole n := fun n => ⟨n, by simp⟩
  have hzero : Measures (2 ^ 48) 0 (0 : Int) :=
    .of_denotes ⟨⟨false, 0, -1074⟩, by decide +kernel, by simp [Number.Exact.value]⟩ (by decide)
  have hone : Measures (2 ^ 48) (Number.ofInt 1) ((2 ^ 0 : Nat) : Int) := hpow 0 (by decide) (by decide +kernel)
  have htwo : Measures (2 ^ 48) 2 ((2 ^ 1 : Nat) : Int) := hpow 1 (by decide) (by decide +kernel)
  have height : Measures (2 ^ 48) 8 ((2 ^ 3 : Nat) : Int) := hpow 3 (by decide) (by decide +kernel)
  have hsixteen : Measures (2 ^ 48) 16 ((2 ^ 4 : Nat) : Int) := hpow 4 (by decide) (by decide +kernel)
  have hboxes : ∀ b ∈ squares, ∃ c, b.Counts (2 ^ 48) c := by
    refine List.forall_mem_cons.2 ⟨⟨⟨_, _, _, _⟩, ⟨hzero, hzero, height, height⟩, ?_⟩,
      List.forall_mem_singleton.2 ⟨⟨_, _, _, _⟩, ⟨hsixteen, hsixteen, htwo, htwo⟩, ?_⟩⟩ <;>
    exact ⟨⟨hwhole _, hwhole _⟩, hwhole _, hwhole _⟩
  have hcounts : ∀ {x y : Float} {k l : Nat}, Measures (2 ^ 48) x (k : Int) → Measures (2 ^ 48) y (l : Int) →
      (⟨x, y, x, y⟩ : Margin Float).Counts (2 ^ 48) ⟨k, l, k, l⟩ := by
    intro x y k l hx hy
    have hw : ∀ n : Nat, IsWhole n := fun n => ⟨n, by simp⟩
    exact ⟨by simpa using hx, by simpa using hy, by simpa using hx, by simpa using hy, ⟨⟨hw l, hw l⟩, hw k, hw k⟩,
      ⟨l.cast_nonneg, l.cast_nonneg⟩, k.cast_nonneg, k.cast_nonneg⟩
  have houter : outer.shape? = some .box := rfl
  have hinner : inner.shape? = some .ellipse := rfl
  obtain ⟨haround, -⟩ := enclosed_iff twoSquares houter hboxes ⟨_, hcounts hone htwo⟩
  obtain ⟨-, hwithin⟩ := enclosed_iff twoSquares hinner hboxes ⟨_, hcounts hone hone⟩
  refine ⟨haround rfl ⟨?_, ⟨"#a ^", rfl, .cons ⟨rfl, rfl⟩ (.cons ⟨rfl, rfl⟩ .nil)⟩, List.cons_ne_nil _ _, ?_⟩, ?_⟩
  · decide +kernel
  · exact ⟨[2, Number.ofInt 1], rfl, rfl⟩
  · have hrun : resolve twoSquares inner =
        .ok (.ofAttrs "ellipse" [("cx", "5"), ("cy", "5"), ("rx", "2"), ("ry", "2")]) :=
      eq_ok_of_toOption (by decide +kernel)
    obtain ⟨b, r, hbox, hr, hfits, -⟩ := hwithin rfl ⟨by decide +kernel,
      ⟨"#a ^", rfl, .cons ⟨rfl, rfl⟩ (.cons ⟨rfl, rfl⟩ .nil)⟩, List.cons_ne_nil _ _,
      ⟨[Number.ofInt 1], rfl, rfl⟩⟩ _ hrun
    refine ⟨_, b, hrun, hbox, hfits ?_⟩
    have hcommon : Box.intersectAll? squares = some ⟨2, 2, 8, 8⟩ := by decide +kernel
    cases hr.symm.trans hcommon
    exact ⟨⟨by decide +kernel, by decide +kernel⟩, by decide +kernel, by decide +kernel⟩

/-- A square that keeps more distance than there is room for sticks out. -/
theorem exists_sticking_out :
    ∃ (el fl : Element) (b : Box Float), el.shape? = some .box ∧
      PlacedBy onlySquare el true [⟨0, 0, 6, 6⟩] ⟨20, 20, 20, 20⟩ ∧ resolve onlySquare el = .ok fl ∧
      fl.box? = .ok (some b) ∧ ¬ b.Inside ⟨0, 0, 6, 6⟩ := by
  refine ⟨.ofAttrs "rect" [("inside", "#a"), ("margin", "20")],
    .ofAttrs "rect" [("x", "-14"), ("y", "-14"), ("width", "34"), ("height", "34")], _, rfl,
    ⟨by decide +kernel, ⟨"#a", rfl, .cons ⟨rfl, rfl⟩ .nil⟩, List.cons_ne_nil _ _, ⟨[20], rfl, rfl⟩⟩,
    eq_ok_of_toOption (by decide +kernel), rfl, fun h => ?_⟩
  exact absurd h.1.1 (by decide +kernel)

end Position

end DiagramMarkup
