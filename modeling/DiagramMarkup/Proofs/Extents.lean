import Mathlib
import DiagramMarkup.Compile.Basic

/-!
# The box of several drawings

The box of drawings one after the other does not depend on their order.

1. Doubles stand in one row, in which their bits say where (`place`); comparisons follow it, apart from NaN and the
   two zeros (`compare_unpack`).
2. `least` and `greatest` are minimum and maximum for a row in which NaN stands beside an infinity (`lowest_least`,
   `highest_greatest`), so they are commutative and associative.
3. The union of boxes takes such minima and maxima (`joinBox_right_comm`).
-/

namespace DiagramMarkup

namespace Number

open Float.Model UnpackedFloat

/-! ## Doubles in a row -/

/-- The bits of a double without the sign. -/
def body (x : Float) : Nat := x.toBits.toNat % 2 ^ 63

/-- The sign of a double. -/
def signOf (x : Float) : Sign := if x.toBits.toNat / 2 ^ 63 = 0 then .positive else .negative

/-- The place of a double in the row of all doubles; `-0` stands in front of `0`. -/
def place (x : Float) : Int :=
  match signOf x with
  | .positive => body x
  | .negative => -1 - body x

theorem bits_inj {x y : Float} (h : x.toBits.toNat = y.toBits.toNat) : x = y := by
  obtain ⟨⟨a, ha⟩⟩ := x
  obtain ⟨⟨b, hb⟩⟩ := y
  obtain rfl : a = b := UInt64.toNat_inj.1 h
  rfl

theorem place_inj {x y : Float} (h : place x = place y) : x = y := by
  refine bits_inj ?_
  have hx : x.toBits.toNat < 2 ^ 64 := x.toBits.toNat_lt
  have hy : y.toBits.toNat < 2 ^ 64 := y.toBits.toNat_lt
  unfold place signOf body at h
  by_cases hxs : x.toBits.toNat / 2 ^ 63 = 0 <;> by_cases hys : y.toBits.toNat / 2 ^ 63 = 0 <;>
    simp only [hxs, hys, if_true, if_false] at h <;> omega

/-- How a double is read by comparisons. A finite one has a mantissa and an exponent, and its bits grow with both. -/
inductive Read (x : Float) : UnpackedFloat → Prop
  | nan (h : x = nan) : Read x .notANumber
  | infinite (h : body x = 2047 * 2 ^ 52) : Read x (.infinity (signOf x))
  | zero (h : body x = 0) : Read x (.zero (signOf x))
  | finite (m : Nat) (e : Int) (hm : 0 < m) (h : (body x : Int) = (e + 1074) * 2 ^ 52 + m)
    (hlt : body x < 2047 * 2 ^ 52) (hmlt : m < 2 ^ 53) (he : -1074 ≤ e) (hnormal : 2 ^ 52 ≤ m ∨ e = -1074) :
    Read x (.finite (signOf x) m e hm)

theorem read_unpack (x : Float) : Read x x.toModel.unpack := by
  obtain ⟨⟨b, hb⟩⟩ := x
  have hlt : b.toNat < 2 ^ 64 := b.toNat_lt
  have hbody : body ⟨⟨b, hb⟩⟩ = b.toNat % 2 ^ 63 := rfl
  have hexp : (@unpackExponent .binary64 b.toBitVec).toNat = b.toNat / 2 ^ 52 % 2048 := by
    simp [unpackExponent, Nat.shiftRight_eq_div_pow]
  have hman : (@unpackMantissa .binary64 b.toBitVec).toNat = b.toNat % 2 ^ 52 := by
    simp [unpackMantissa, Nat.shiftRight_eq_div_pow]
  have hsign : Sign.ofBitVec (@unpackSign .binary64 b.toBitVec) = signOf ⟨⟨b, hb⟩⟩ := by
    have hbit : (@unpackSign .binary64 b.toBitVec).toNat = b.toNat / 2 ^ 63 := by
      simp [unpackSign, Nat.shiftRight_eq_div_pow]
      omega
    unfold Sign.ofBitVec signOf
    simp only [← BitVec.toNat_inj, hbit]
    rfl
  have hexps : ∀ n, @unpackExponent .binary64 b.toBitVec = BitVec.ofNat 11 n ↔
      b.toNat / 2 ^ 52 % 2048 = n % 2048 := fun n => by rw [← BitVec.toNat_inj, hexp]; rfl
  have hmans : @unpackMantissa .binary64 b.toBitVec = 0#52 ↔ b.toNat % 2 ^ 52 = 0 := by
    rw [← BitVec.toNat_inj, hman]
    rfl
  show Read _ (UnpackedFloat.unpack .binary64 b.toBitVec)
  unfold UnpackedFloat.unpack
  simp only [hsign]
  split
  · next hinf =>
    have hinf' := (hexps 2047).1 hinf
    split
    · next hm => exact .infinite (by rw [hmans] at hm; omega)
    · next hm => exact .nan (bits_inj (congrArg BitVec.toNat (hb.eq_packedNaN hinf hm)))
  · next hinf =>
    have hinf := mt (hexps 2047).2 hinf
    split
    · next hz =>
      have hz := (hexps 0).1 hz
      split
      · next hm => exact .zero (by rw [hmans] at hm; omega)
      · -- A mantissa without the implicit bit stands at the least exponent.
        have he : ((@unpackExponent .binary64 b.toBitVec).toNat : Int) -
            (Format.binary64.exponentBias + (52 : Nat)) + 1 = -1074 := by
          rw [hexp, hz]
          rfl
        refine .finite _ _ _ ?_ (by omega) (by rw [hman]; omega) (le_of_eq he.symm) (.inr he)
        rw [he, hman]
        omega
    · next hz =>
      have hz := mt (hexps 0).2 hz
      have hm : (1#1 ++ @unpackMantissa .binary64 b.toBitVec).toNat = 2 ^ 52 + b.toNat % 2 ^ 52 := by
        rw [BitVec.toNat_append, ← Nat.shiftLeft_add_eq_or_of_lt (BitVec.isLt _), hman]
        rfl
      have he : ((@unpackExponent .binary64 b.toBitVec).toNat : Int) -
          (Format.binary64.exponentBias + (52 : Nat)) = b.toNat / 2 ^ 52 % 2048 - 1075 := by
        rw [hexp]
        rfl
      refine .finite _ _ _ ?_ (by omega) (by rw [hm]; omega) (by rw [he]; omega) (.inl (by rw [hm]; omega))
      rw [he, hm]
      omega

theorem eq_compare {a b : Int} : ∀ {o : Ordering},
    (match o with | .lt => a < b | .eq => a = b | .gt => b < a) → o = compare a b
  | .lt, h => (compare_lt_iff_lt.2 h).symm
  | .eq, h => (compare_eq_iff_eq.2 h).symm
  | .gt, h => (compare_gt_iff_gt.2 h).symm

/-- Exponents come first and mantissas second, in the comparison and in the bits. -/
theorem compare_then {m n : Nat} {e f : Int} (hm : m < 2 ^ 53) (hn : n < 2 ^ 53)
    (he : 2 ^ 52 ≤ m ∨ e = -1074) (hf : 2 ^ 52 ≤ n ∨ f = -1074) (hel : -1074 ≤ e) (hfl : -1074 ≤ f) :
    (compare e f).then (compare m n) = compare ((e + 1074) * 2 ^ 52 + m) ((f + 1074) * 2 ^ 52 + n) := by
  refine eq_compare ?_
  rcases lt_trichotomy e f with h | rfl | h
  · rw [compare_lt_iff_lt.2 h]
    show _ < _
    omega
  · rw [compare_eq_iff_eq.2 rfl]
    rcases lt_trichotomy m n with h | rfl | h
    · rw [compare_lt_iff_lt.2 h]
      show _ < _
      omega
    · rw [compare_eq_iff_eq.2 rfl]
      rfl
    · rw [compare_gt_iff_gt.2 h]
      show _ < _
      omega
  · rw [compare_gt_iff_gt.2 h]
    show _ < _
    omega

theorem swap_compare (a b : Int) : (compare a b).swap = compare (-1 - a) (-1 - b) := by
  refine eq_compare ?_
  rcases lt_trichotomy a b with h | rfl | h
  · rw [compare_lt_iff_lt.2 h]
    show _ < _
    omega
  · rw [compare_eq_iff_eq.2 rfl]
    rfl
  · rw [compare_gt_iff_gt.2 h]
    show _ < _
    omega

/-- Doubles are compared by their places, apart from NaN and the two zeros. -/
theorem compare_unpack {x y : Float} (hx : x ≠ nan) (hy : y ≠ nan) (h : body x ≠ 0 ∨ body y ≠ 0) :
    x.toModel.unpack.compare y.toModel.unpack = some (compare (place x) (place y)) := by
  have hxr := read_unpack x
  have hyr := read_unpack y
  generalize x.toModel.unpack = u at hxr
  generalize y.toModel.unpack = v at hyr
  unfold place
  cases hxr with
  | nan hnan => exact absurd hnan hx
  | infinite hx =>
    cases hyr with
    | nan hnan => exact absurd hnan hy
    | infinite hy =>
      cases signOf x <;> cases signOf y <;> refine congrArg some (eq_compare ?_) <;>
        simp only [hx, hy, compare] <;> omega
    | zero hy =>
      cases signOf x <;> cases signOf y <;> refine congrArg some (eq_compare ?_) <;> simp only [] <;> omega
    | finite =>
      cases signOf x <;> cases signOf y <;> refine congrArg some (eq_compare ?_) <;> simp only [] <;> omega
  | zero hx =>
    cases hyr with
    | nan hnan => exact absurd hnan hy
    | infinite hy =>
      cases signOf x <;> cases signOf y <;> refine congrArg some (eq_compare ?_) <;> simp only [] <;> omega
    | zero hy => exact absurd hy (h.resolve_left (not_not.2 hx))
    | finite =>
      cases signOf x <;> cases signOf y <;> refine congrArg some (eq_compare ?_) <;> simp only [] <;> omega
  | finite m e _ hx hlt hm he hnormal =>
    cases hyr with
    | nan hnan => exact absurd hnan hy
    | infinite hy =>
      cases signOf x <;> cases signOf y <;> refine congrArg some (eq_compare ?_) <;> simp only [] <;> omega
    | zero hy =>
      cases signOf x <;> cases signOf y <;> refine congrArg some (eq_compare ?_) <;> simp only [] <;> omega
    | finite n f _ hy hlt' hn hf hnormal' =>
      have hthen := compare_then hm hn hnormal hnormal' he hf
      rw [← hx, ← hy] at hthen
      cases signOf x <;> cases signOf y
      · show some (Ordering.swap _) = _
        rw [hthen, swap_compare]
      · refine congrArg some (eq_compare ?_)
        simp only []
        omega
      · refine congrArg some (eq_compare ?_)
        simp only []
        omega
      · exact congrArg some hthen

/-! ## The least and the greatest -/

theorem lt_iff {x y : Float} (hx : x ≠ nan) (hy : y ≠ nan) (h : body x ≠ 0 ∨ body y ≠ 0) :
    x < y ↔ place x < place y := by
  have hlt : x < y ↔ (x.toModel.unpack.compare y.toModel.unpack == some .lt) = true := decide_eq_true_iff
  rw [hlt, compare_unpack hx hy h, ← compare_lt_iff_lt]
  simp

theorem isNaN_iff {x : Float} : x.isNaN = true ↔ x = nan := by
  refine ⟨fun h => ?_, fun h => h ▸ by decide⟩
  have hread := read_unpack x
  change x.toModel.unpack.isNaN = true at h
  generalize x.toModel.unpack = u at hread h
  cases hread with
  | nan hx => exact hx
  | infinite => cases h
  | zero => cases h
  | finite => cases h

theorem beq_infinity {x : Float} {neg : Bool} : (x == infinity neg) = true ↔ x = infinity neg := by
  have hne : infinity neg ≠ nan := by cases neg <;> decide
  have hbody : body (infinity neg) ≠ 0 := by cases neg <;> decide
  have hbeq : (x == infinity neg) =
    (x.toModel.unpack.compare (infinity neg).toModel.unpack == some .eq) := rfl
  rw [hbeq]
  by_cases hx : x = nan
  · rw [hx]
    refine ⟨fun h => ?_, fun h => absurd h.symm hne⟩
    cases neg <;> revert h <;> decide
  · rw [compare_unpack hx hne (.inr hbody)]
    simp only [beq_iff_eq, Option.some.injEq, compare_eq_iff_eq]
    exact ⟨place_inj, congrArg place⟩

theorem unpack_zero {x : Float} (h : body x = 0) : x.toModel.unpack = .zero (signOf x) := by
  have hread := read_unpack x
  generalize x.toModel.unpack = u at hread ⊢
  cases hread with
  | nan hx =>
    have hnan : body nan ≠ 0 := by decide
    exact absurd (hx ▸ h) hnan
  | infinite hx => omega
  | zero => rfl
  | finite m e hm hx => omega

theorem beq_zero {x : Float} : (x == 0) = true ↔ body x = 0 := by
  have hzero : body 0 = 0 := by decide
  have hbeq : (x == 0) = (x.toModel.unpack.compare (0 : Float).toModel.unpack == some .eq) := rfl
  rw [hbeq]
  by_cases hx : x = nan
  · rw [hx]
    decide
  by_cases h0 : body x = 0
  · rw [unpack_zero h0, unpack_zero hzero]
    exact ⟨fun _ => h0, fun _ => rfl⟩
  · rw [compare_unpack hx (by decide) (.inl h0)]
    simp only [beq_iff_eq, Option.some.injEq, compare_eq_iff_eq]
    exact ⟨fun h => place_inj h ▸ hzero, fun h => absurd h h0⟩

theorem place_bounds (x : Float) : -2 ^ 63 ≤ place x ∧ place x < 2 ^ 63 := by
  have hbody : body x < 2 ^ 63 := Nat.mod_lt _ (by decide)
  unfold place
  split <;> omega

/-- Of two zeros, the one with a sign comes first. -/
theorem place_zero {x : Float} (h : body x = 0) :
    place x = if x.toBits.toNat / Nat.pow 2 63 = 1 then -1 else 0 := by
  have hlt : x.toBits.toNat < 2 ^ 64 := x.toBits.toNat_lt
  have hpow : Nat.pow 2 63 = 2 ^ 63 := rfl
  unfold place signOf
  rw [h, hpow]
  split_ifs <;> first | rfl | omega

/-- The row in which NaN stands beside one of the infinities, and this infinity at the end. -/
def rank (neg : Bool) (x : Float) : Int :=
  if x = infinity neg then (if neg then -2 ^ 65 else 2 ^ 65)
  else if x = nan then (if neg then -2 ^ 64 else 2 ^ 64)
  else place x

section Rank

variable {neg : Bool} {x y : Float}

theorem rank_infinity : rank neg (infinity neg) = if neg then -2 ^ 65 else 2 ^ 65 := if_pos rfl

theorem rank_nan : rank neg nan = if neg then -2 ^ 64 else 2 ^ 64 := by
  have hne : nan ≠ infinity neg := by cases neg <;> decide
  rw [rank, if_neg hne, if_pos rfl]

theorem rank_eq (hinf : x ≠ infinity neg) (hnan : x ≠ nan) : rank neg x = place x := by
  rw [rank, if_neg hinf, if_neg hnan]

theorem rank_bounds (neg : Bool) (x : Float) : -2 ^ 65 ≤ rank neg x ∧ rank neg x ≤ 2 ^ 65 ∧
    (x ≠ infinity neg → -2 ^ 64 ≤ rank neg x ∧ rank neg x ≤ 2 ^ 64) := by
  have hx := place_bounds x
  unfold rank
  split_ifs with hinf <;> simp [hinf]
  all_goals omega

theorem rank_inj (h : rank neg x = rank neg y) : x = y := by
  have hx := place_bounds x
  have hy := place_bounds y
  unfold rank at h
  cases neg <;> split_ifs at h with hx1 hy1 hy2 hx2 hy1 hy2 hy1 hy2
  all_goals first | omega | exact place_inj h | simp_all

/-- The lesser of two in the row that starts with an infinity, and the greater in the one that ends with it. -/
def outer (neg : Bool) (a b : Int) : Int := if neg then min a b else max a b

/-- In its row, the infinity comes before NaN and NaN before all numbers. -/
theorem rank_outer {z : Float} (hz : x ≠ infinity neg → x ≠ nan → y ≠ infinity neg → y ≠ nan →
      rank neg z = outer neg (rank neg x) (rank neg y)) :
    rank neg (if x = infinity neg ∨ y = infinity neg then infinity neg else if x = nan ∨ y = nan then nan else z) =
      outer neg (rank neg x) (rank neg y) := by
  have hx := rank_bounds neg x
  have hy := rank_bounds neg y
  by_cases hinf : x = infinity neg ∨ y = infinity neg
  · rw [if_pos hinf, rank_infinity]
    rcases hinf with rfl | rfl <;> rw [rank_infinity] <;> cases neg <;> simp [outer] <;> omega
  rw [if_neg hinf]
  obtain ⟨hxinf, hyinf⟩ := not_or.1 hinf
  have hx := hx.2.2 hxinf
  have hy := hy.2.2 hyinf
  by_cases hnan : x = nan ∨ y = nan
  · rw [if_pos hnan, rank_nan]
    rcases hnan with rfl | rfl <;> rw [rank_nan] <;> cases neg <;> simp [outer] <;> omega
  rw [if_neg hnan]
  obtain ⟨hxnan, hynan⟩ := not_or.1 hnan
  exact hz hxinf hxnan hyinf hynan

end Rank

theorem rank_least (x y : Float) : rank true (least x y) = min (rank true x) (rank true y) := by
  unfold least
  simp only [Bool.or_eq_true, Bool.and_eq_true, beq_infinity, isNaN_iff, beq_zero, beq_iff_eq]
  refine rank_outer fun hxinf hxnan hyinf hynan => ?_
  show _ = min _ _
  rw [rank_eq hxinf hxnan, rank_eq hyinf hynan]
  by_cases hzero : body x = 0 ∧ body y = 0
  · have hpx := place_zero hzero.1
    have hpy := place_zero hzero.2
    rw [if_pos hzero]
    split_ifs with hsign
    · rw [rank_eq hxinf hxnan, min_eq_left]
      rw [hpx, hpy, if_pos hsign]
      split <;> decide
    · rw [rank_eq hyinf hynan, min_eq_right]
      rw [hpx, hpy, if_neg hsign]
      split <;> decide
  · rw [if_neg hzero]
    simp only [lt_iff hxnan hynan (not_and_or.1 hzero)]
    split_ifs with hlt
    · rw [rank_eq hxinf hxnan, min_eq_left hlt.le]
    · rw [rank_eq hyinf hynan, min_eq_right (not_lt.1 hlt)]

theorem rank_greatest (x y : Float) :
    rank false (greatest x y) = max (rank false x) (rank false y) := by
  unfold greatest
  simp only [Bool.or_eq_true, Bool.and_eq_true, beq_infinity, isNaN_iff, beq_zero, beq_iff_eq]
  refine rank_outer fun hxinf hxnan hyinf hynan => ?_
  show _ = max _ _
  rw [rank_eq hxinf hxnan, rank_eq hyinf hynan]
  by_cases hzero : body x = 0 ∧ body y = 0
  · have hpx := place_zero hzero.1
    have hpy := place_zero hzero.2
    rw [if_pos hzero]
    split_ifs with hsign
    · rw [rank_eq hyinf hynan, max_eq_right]
      rw [hpx, hpy, if_pos hsign]
      split <;> decide
    · rw [rank_eq hxinf hxnan, max_eq_left]
      rw [hpx, hpy, if_neg hsign]
      split <;> decide
  · rw [if_neg hzero]
    simp only [lt_iff hynan hxnan (not_and_or.1 hzero).symm]
    split_ifs with hlt
    · rw [rank_eq hxinf hxnan, max_eq_left hlt.le]
    · rw [rank_eq hyinf hynan, max_eq_right (not_lt.1 hlt)]

theorem least_eq (x y : Float) : least x y = x ∨ least x y = y := by
  rcases min_choice (rank true x) (rank true y) with h | h
  · exact .inl (rank_inj ((rank_least x y).trans h))
  · exact .inr (rank_inj ((rank_least x y).trans h))

theorem greatest_eq (x y : Float) : greatest x y = x ∨ greatest x y = y := by
  rcases max_choice (rank false x) (rank false y) with h | h
  · exact .inl (rank_inj ((rank_greatest x y).trans h))
  · exact .inr (rank_inj ((rank_greatest x y).trans h))

theorem least_comm (x y : Float) : least x y = least y x :=
  rank_inj (by rw [rank_least, rank_least, min_comm])

theorem least_assoc (x y z : Float) : least (least x y) z = least x (least y z) :=
  @rank_inj true _ _ (by simp only [rank_least, min_assoc])

theorem greatest_comm (x y : Float) : greatest x y = greatest y x :=
  rank_inj (by rw [rank_greatest, rank_greatest, max_comm])

theorem greatest_assoc (x y z : Float) : greatest (greatest x y) z = greatest x (greatest y z) :=
  @rank_inj false _ _ (by simp only [rank_greatest, max_assoc])

/-- The first does not come behind the second, in either row. -/
structure Ordered (x y : Float) : Prop where
  low : rank true x ≤ rank true y
  high : rank false x ≤ rank false y

theorem Ordered.least_eq {x y : Float} (h : Ordered x y) : least x y = x :=
  rank_inj (by rw [rank_least, min_eq_left h.low])

theorem Ordered.greatest_eq {x y : Float} (h : Ordered x y) : greatest x y = y :=
  rank_inj (by rw [rank_greatest, max_eq_right h.high])

theorem ordered_least_greatest (x y : Float) : Ordered (least x y) (greatest x y) := by
  constructor
  · rw [rank_least]
    rcases Number.greatest_eq x y with h | h <;> rw [h]
    · exact min_le_left _ _
    · exact min_le_right _ _
  · rw [rank_greatest]
    rcases Number.least_eq x y with h | h <;> rw [h]
    · exact le_max_left _ _
    · exact le_max_right _ _

theorem Ordered.join {x y z w : Float} (h : Ordered x y) (h' : Ordered z w) :
    Ordered (least x z) (greatest y w) := by
  constructor
  · rw [rank_least]
    rcases Number.greatest_eq y w with heq | heq <;> rw [heq]
    · exact (min_le_left _ _).trans h.low
    · exact (min_le_right _ _).trans h'.low
  · rw [rank_greatest]
    rcases Number.least_eq x z with heq | heq <;> rw [heq]
    · exact h.high.trans (le_max_left _ _)
    · exact h'.high.trans (le_max_right _ _)

end Number

/-! ## Boxes -/

namespace Box

open Number

/-- The corners of the box are sorted. -/
structure Sorted (b : Box Float) : Prop where
  x : Ordered b.x1 b.x2
  y : Ordered b.y1 b.y2

/-- The smallest sorted box that contains two sorted boxes. -/
def cover (b c : Box Float) : Box Float :=
  ⟨least b.x1 c.x1, least b.y1 c.y1, greatest b.x2 c.x2, greatest b.y2 c.y2⟩

theorem union_eq_cover (b c : Box Float) : b.union c = cover b.normalized c.normalized := rfl

theorem sorted_normalized (b : Box Float) : b.normalized.Sorted :=
  ⟨ordered_least_greatest _ _, ordered_least_greatest _ _⟩

theorem Sorted.cover {b c : Box Float} (hb : b.Sorted) (hc : c.Sorted) : (cover b c).Sorted :=
  ⟨hb.x.join hc.x, hb.y.join hc.y⟩

theorem Sorted.normalized_eq {b : Box Float} (h : b.Sorted) : b.normalized = b := by
  obtain ⟨x1, y1, x2, y2⟩ := b
  show Box.mk (least x1 x2) (least y1 y2) (greatest x1 x2) (greatest y1 y2) = _
  rw [h.x.least_eq, h.y.least_eq, h.x.greatest_eq, h.y.greatest_eq]

theorem cover_comm (b c : Box Float) : cover b c = cover c b := by
  unfold cover
  rw [least_comm, least_comm b.y1, greatest_comm, greatest_comm b.y2]

theorem cover_right_comm (a b c : Box Float) : cover (cover a b) c = cover (cover a c) b := by
  unfold cover
  simp only [least_assoc, greatest_assoc]
  rw [least_comm b.x1, least_comm b.y1, greatest_comm b.x2, greatest_comm b.y2]

end Box

namespace Drawing

theorem joinBox_right_comm (a b c : Option (Box Float)) :
    joinBox (joinBox a b) c = joinBox (joinBox a c) b := by
  have hsorted : ∀ b c : Box Float, (b.union c).normalized = b.union c := fun b c =>
    (b.sorted_normalized.cover c.sorted_normalized).normalized_eq
  rcases a with _ | a <;> rcases b with _ | b <;> rcases c with _ | c <;> try rfl
  · show some (b.normalized.union c) = some (c.normalized.union b)
    rw [Box.union_eq_cover, Box.union_eq_cover, b.sorted_normalized.normalized_eq,
      c.sorted_normalized.normalized_eq, Box.cover_comm]
  · show some ((a.union b).union c) = some ((a.union c).union b)
    rw [Box.union_eq_cover (a.union b), Box.union_eq_cover (a.union c), hsorted, hsorted,
      Box.union_eq_cover, Box.union_eq_cover, Box.cover_right_comm]

/-- The box of drawings does not depend on their order. -/
theorem box_concat_perm {ds ds' : List Drawing} (h : (ds.map Drawing.box).Perm (ds'.map Drawing.box)) :
    (concat ds).box = (concat ds').box := by
  have hfold : ∀ ds : List Drawing, (concat ds).box = (ds.map Drawing.box).foldl joinBox none := by
    intro ds
    rw [List.foldl_map]
    rfl
  rw [hfold, hfold]
  exact h.foldl_eq' (fun b _ c _ a => joinBox_right_comm a b c) none

end Drawing

end DiagramMarkup
