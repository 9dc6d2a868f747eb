import DiagramMarkup.Proofs.Exact
import DiagramMarkup.Raster.Size

/-!
# Bounds of previews

With exact numbers, the size of a preview is compared with the size that is asked for and with the ceiling.

1. What is at most a whole number is rounded to at most this number (`rounded_le`), so a dimension that is scaled to fit
   does not pass its bound though it is rounded (`rounded_mul_le`).
2. A size is capped by scaling it down: the result is positive, below the ceiling and not larger than before
   (`Size.capped_bounds`), and a size below the ceiling stays as it is (`Size.capped_of_le`).
3. So a preview has at least one pixel each way and passes neither the ceiling nor two dimensions that are asked for, and
   a single one is met unless the size is capped (`fit_within`).
-/

namespace DiagramMarkup.Raster

open Scalar

variable {K : Type} [Field K] [LinearOrder K] [FloorRing K] [Elementary K]

/-! ## Cases -/

theorem natural_pos (x : K) : 0 < natural x := by
  unfold natural
  dsimp only
  split
  · decide
  · omega

/-- A single dimension is met. -/
theorem scaled_width {view target : Size} (htw : 0 < target.width) (hth : target.height ≤ 0) :
    (scaled K view target).width = target.width := by
  unfold scaled
  rw [if_neg (by simp [htw.not_ge]), if_pos hth]

theorem scaled_height {view target : Size} (htw : target.width ≤ 0) (hth : 0 < target.height) :
    (scaled K view target).height = target.height := by
  unfold scaled
  rw [if_neg (by simp [hth.not_ge]), if_neg hth.not_ge, if_pos htw]

theorem positive_bounds {s : Size} {w h : Int} (hw : 1 ≤ w) (hh : 1 ≤ h) (hsw : s.width ≤ w) (hsh : s.height ≤ h) :
    (1 ≤ s.positive.width ∧ s.positive.width ≤ w) ∧ 1 ≤ s.positive.height ∧ s.positive.height ≤ h :=
  ⟨⟨le_max_right _ _, max_le hsw hw⟩, le_max_right _ _, max_le hsh hh⟩

/-- A size below the ceiling stays as it is. -/
theorem Size.capped_of_le {s : Size} (hw : s.width ≤ ceiling) (hh : s.height ≤ ceiling) : s.capped K = s := by
  unfold capped
  rw [if_neg (by simp [hw, hh])]

/-- The size of a preview before it is capped. -/
def uncapped (width height : K) (target : Size) : Size := (scaled K ⟨natural width, natural height⟩ target).positive

theorem fit_eq (width height : K) (target : Size) : fit width height target = (uncapped width height target).capped K :=
  rfl

/-! ## Rounding -/

variable [IsStrictOrderedRing K]

theorem toInt_intCast (n : Int) : toInt (n : K) = n := by
  show (if 0 ≤ (n : K) then ⌊(n : K)⌋ else ⌈(n : K)⌉) = n
  split
  · exact Int.floor_intCast n
  · exact Int.ceil_intCast n

theorem rounded_eq (x : K) : rounded x = if 0 ≤ x then ⌊x + 1 / 2⌋ else ⌈x - 1 / 2⌉ := by
  show toInt (if 0 ≤ x then ((⌊x + 1 / 2⌋ : Int) : K) else ((⌈x - 1 / 2⌉ : Int) : K)) = _
  split <;> exact toInt_intCast _

/-- Rounding does not pass a whole number. -/
theorem rounded_le {x : K} {n : Int} (h : x ≤ n) : rounded x ≤ n := by
  rw [rounded_eq]
  split
  · refine Int.lt_add_one_iff.1 (Int.floor_lt.2 ?_)
    push_cast
    linarith
  · refine Int.ceil_le.2 ?_
    linarith

/-- A dimension that is scaled to a bound does not pass it. -/
theorem rounded_mul_le {w m : Int} {f : K} (hw : 0 < w) (hf : f ≤ m / w) : rounded ((w : K) * f) ≤ m := by
  have hw' : (0 : K) < w := Int.cast_pos.2 hw
  refine rounded_le ?_
  rw [mul_comm]
  exact (le_div_iff₀ hw').1 hf

/-! ## Bounds -/

/-- A size is brought under the ceiling and does not grow. -/
theorem Size.capped_bounds {s : Size} (hw : 1 ≤ s.width) (hh : 1 ≤ s.height) :
    (1 ≤ (s.capped K).width ∧ (s.capped K).width ≤ min ceiling s.width) ∧
      1 ≤ (s.capped K).height ∧ (s.capped K).height ≤ min ceiling s.height := by
  by_cases h : ceiling < s.width ∨ ceiling < s.height
  · have hw' : (0 : K) < s.width := Int.cast_pos.2 hw
    have hh' : (0 : K) < s.height := Int.cast_pos.2 hh
    have hone : (1 : Int) ≤ ceiling := by decide
    -- One of the two quotients is below one, since one of the two dimensions is above the ceiling.
    have hshrink : min ((ceiling : K) / s.width) (ceiling / s.height) ≤ 1 := by
      rcases h with h | h
      · exact (min_le_left _ _).trans ((div_le_one hw').2 (Int.cast_le.2 h.le))
      · exact (min_le_right _ _).trans ((div_le_one hh').2 (Int.cast_le.2 h.le))
    have hself : ∀ n : Int, 0 < n → min ((ceiling : K) / s.width) (ceiling / s.height) ≤ n / n := fun n hn => by
      rwa [div_self (Int.cast_pos.2 hn).ne']
    unfold capped
    rw [if_pos (by simpa using h)]
    refine positive_bounds (le_min hone hw) (le_min hone hh) (le_min ?_ ?_) (le_min ?_ ?_)
    · exact rounded_mul_le hw (min_le_left _ _)
    · exact rounded_mul_le hw (hself _ hw)
    · exact rounded_mul_le hh (min_le_right _ _)
    · exact rounded_mul_le hh (hself _ hh)
  · rw [not_or, not_lt, not_lt] at h
    rw [capped_of_le h.1 h.2]
    exact ⟨⟨hw, le_min h.1 le_rfl⟩, hh, le_min h.2 le_rfl⟩

/-- Two dimensions that are asked for are not passed. -/
theorem scaled_le {view target : Size} (hw : 0 < view.width) (hh : 0 < view.height) (htw : 0 < target.width)
    (hth : 0 < target.height) :
    (scaled K view target).width ≤ target.width ∧ (scaled K view target).height ≤ target.height := by
  unfold scaled
  rw [if_neg (by simp [htw.not_ge]), if_neg hth.not_ge, if_neg htw.not_ge]
  exact ⟨rounded_mul_le hw (min_le_left _ _), rounded_mul_le hh (min_le_right _ _)⟩

/-- A preview has at least one pixel each way and does not pass the ceiling. It lies within two dimensions that are asked
for, and meets a single one if its size before it is capped is below the ceiling. -/
theorem fit_within (width height : K) (target : Size) :
    ((1 ≤ (fit width height target).width ∧ (fit width height target).width ≤ ceiling) ∧
        1 ≤ (fit width height target).height ∧ (fit width height target).height ≤ ceiling) ∧
      (0 < target.width → 0 < target.height →
        (fit width height target).width ≤ target.width ∧ (fit width height target).height ≤ target.height) ∧
      ((uncapped width height target).width ≤ ceiling → (uncapped width height target).height ≤ ceiling →
        (0 < target.width → target.height ≤ 0 → (fit width height target).width = target.width) ∧
          (target.width ≤ 0 → 0 < target.height → (fit width height target).height = target.height)) := by
  have positive : 1 ≤ (uncapped width height target).width ∧ 1 ≤ (uncapped width height target).height :=
    ⟨le_max_right _ _, le_max_right _ _⟩
  obtain ⟨⟨hw, hwle⟩, hh, hhle⟩ := Size.capped_bounds (K := K) positive.1 positive.2
  rw [fit_eq]
  refine ⟨⟨⟨hw, hwle.trans (min_le_left _ _)⟩, hh, hhle.trans (min_le_left _ _)⟩, fun htw hth => ?_, fun hcw hch => ?_⟩
  · obtain ⟨hsw, hsh⟩ : (scaled K ⟨natural width, natural height⟩ target).width ≤ target.width ∧
        (scaled K ⟨natural width, natural height⟩ target).height ≤ target.height :=
      scaled_le (natural_pos width) (natural_pos height) htw hth
    exact ⟨hwle.trans ((min_le_right _ _).trans (max_le hsw htw)), hhle.trans ((min_le_right _ _).trans (max_le hsh hth))⟩
  · rw [Size.capped_of_le hcw hch]
    refine ⟨fun htw hth => ?_, fun htw hth => ?_⟩
    · show max (scaled K _ target).width 1 = target.width
      rw [scaled_width htw hth, max_eq_left htw]
    · show max (scaled K _ target).height 1 = target.height
      rw [scaled_height htw hth, max_eq_left hth]

/-- A view that is twice as wide as high. -/
theorem fit_within_wide :
    letI := Elementary.rough
    ((fit (100 : ℚ) 50 ⟨150, 150⟩).width ≤ 150 ∧ (fit (100 : ℚ) 50 ⟨150, 150⟩).height ≤ 150) ∧
      ((uncapped (100 : ℚ) 50 ⟨200, 0⟩).width ≤ ceiling ∧ (uncapped (100 : ℚ) 50 ⟨200, 0⟩).height ≤ ceiling) ∧
      (fit (100 : ℚ) 50 ⟨200, 0⟩).width = 200 ∧
      ((uncapped (100 : ℚ) 50 ⟨0, 200⟩).width ≤ ceiling ∧ (uncapped (100 : ℚ) 50 ⟨0, 200⟩).height ≤ ceiling) ∧
      (fit (100 : ℚ) 50 ⟨0, 200⟩).height = 200 := by
  let := Elementary.rough
  have hwide : (uncapped (100 : ℚ) 50 ⟨200, 0⟩).width ≤ ceiling ∧ (uncapped (100 : ℚ) 50 ⟨200, 0⟩).height ≤ ceiling := by
    decide +kernel
  have hhigh : (uncapped (100 : ℚ) 50 ⟨0, 200⟩).width ≤ ceiling ∧ (uncapped (100 : ℚ) 50 ⟨0, 200⟩).height ≤ ceiling := by
    decide +kernel
  exact ⟨(fit_within 100 50 ⟨150, 150⟩).2.1 (by decide) (by decide), hwide,
    ((fit_within 100 50 ⟨200, 0⟩).2.2 hwide.1 hwide.2).1 (by decide) (by decide), hhigh,
    ((fit_within 100 50 ⟨0, 200⟩).2.2 hhigh.1 hhigh.2).2 (by decide) (by decide)⟩

end DiagramMarkup.Raster
