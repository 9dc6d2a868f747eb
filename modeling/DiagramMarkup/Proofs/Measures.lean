import DiagramMarkup.Proofs.Decimals
import DiagramMarkup.Proofs.Sums
import DiagramMarkup.Proofs.Words

/-!
# Doubles as measures

Coordinates are mostly integers, and halves of them are met on the way. Doubles stand for all of these that are not too
large, and compute with them without an error.

1. Doubles are in the order of the numbers they stand for (`Denotes.lt_iff`, `Denotes.least`, `Denotes.greatest`).
2. What has no more than three places is read as it was written (`exists_denotes_read_fixedText`).
3. Halves of integers up to a bound (`Measures`) stay such under all operations, with a larger bound
   (`Measures.add`, `Measures.halved`).
-/

namespace DiagramMarkup

namespace Number

variable {x y : Float} {p r : ℚ}

/-! ## Order -/

/-- Exponent and mantissa grow with the value. -/
theorem Exact.Fits.abs_lt {d e : Exact} (hd : d.Fits) (he : e.Fits)
    (h : (d.q + 1074).toNat * 2 ^ 52 + d.m < (e.q + 1074).toNat * 2 ^ 52 + e.m) : |d.value| < |e.value| := by
  obtain ⟨hlt, hlo, hhi, hnormal⟩ := hd
  obtain ⟨hlt', hlo', hhi', hnormal'⟩ := he
  rw [d.abs_value, e.abs_value]
  rcases lt_or_eq_of_le (show d.q ≤ e.q by omega) with hq | hq
  · have hm : (d.m : ℚ) < 2 ^ (53 : Int) := by exact_mod_cast hlt
    have hm' : (2 : ℚ) ^ (52 : Int) ≤ e.m := by exact_mod_cast (show 2 ^ 52 ≤ e.m by omega)
    calc (d.m : ℚ) * 2 ^ d.q < 2 ^ (53 : Int) * 2 ^ d.q := by gcongr
      _ = 2 ^ (53 + d.q) := (zpow_add₀ two_ne_zero _ _).symm
      _ ≤ 2 ^ (52 + e.q) := zpow_le_zpow_right₀ one_le_two (by omega)
      _ = 2 ^ (52 : Int) * 2 ^ e.q := zpow_add₀ two_ne_zero _ _
      _ ≤ e.m * 2 ^ e.q := by gcongr
  · have hm : (d.m : ℚ) < e.m := by exact_mod_cast (show d.m < e.m by omega)
    rw [hq]
    gcongr

theorem Exact.value_of_neg {e : Exact} (h : e.neg = true) : e.value = -|e.value| := by
  rw [e.abs_value]
  unfold value
  rw [h, if_pos rfl, neg_one_mul, neg_mul]

theorem Exact.value_of_not_neg {e : Exact} (h : e.neg = false) : e.value = |e.value| := by
  rw [e.abs_value]
  unfold value
  rw [h, if_neg Bool.false_ne_true, one_mul]

theorem signOf_of_reading {e : Exact} (h : reading x = .finite e) :
    signOf x = if e.neg then .negative else .positive := by
  obtain ⟨⟨hlt, hlo, hhi, hnormal⟩, hbits⟩ := reading_eq_finite h
  unfold signOf
  rw [hbits]
  unfold Exact.bits
  simp only [Nat.pow_eq]
  cases e.neg with
  | false => rw [if_neg Bool.false_ne_true, if_neg Bool.false_ne_true, if_pos (by omega)]
  | true => rw [if_pos rfl, if_pos rfl, if_neg (by omega)]

theorem denotes_unique (hx : Denotes x p) (hy : Denotes x r) : p = r := by
  obtain ⟨d, hd, rfl⟩ := hx
  obtain ⟨e, he, rfl⟩ := hy
  cases hd.symm.trans he
  rfl

/-- The row of doubles goes up with the numbers they stand for, apart from the two zeros. -/
theorem lt_of_place_lt (hx : Denotes x p) (hy : Denotes y r) (hne : body x ≠ 0 ∨ body y ≠ 0)
    (h : place x < place y) : p < r := by
  obtain ⟨d, hd, rfl⟩ := hx
  obtain ⟨e, he, rfl⟩ := hy
  have hfits := (reading_eq_finite hd).1
  have hfits' := (reading_eq_finite he).1
  have hpos : |d.value| ≠ 0 ∨ |e.value| ≠ 0 := by
    rw [ne_eq, ne_eq, abs_eq_zero, abs_eq_zero, Exact.value_eq_zero_iff, Exact.value_eq_zero_iff]
    exact hne.imp (mt (body_eq_zero_iff hd).2) (mt (body_eq_zero_iff he).2)
  have habs := abs_nonneg d.value
  have habs' := abs_nonneg e.value
  unfold place at h
  rw [signOf_of_reading hd, signOf_of_reading he, body_of_reading hd, body_of_reading he] at h
  cases hneg : d.neg <;> cases hneg' : e.neg <;> simp only [hneg, hneg', if_true, Bool.false_eq_true, if_false] at h
  · rw [Exact.value_of_not_neg hneg, Exact.value_of_not_neg hneg']
    exact hfits.abs_lt hfits' (by omega)
  · omega
  · rw [Exact.value_of_neg hneg, Exact.value_of_not_neg hneg']
    rcases hpos with hpos | hpos
    · have := lt_of_le_of_ne habs hpos.symm
      linarith
    · have := lt_of_le_of_ne habs' hpos.symm
      linarith
  · rw [Exact.value_of_neg hneg, Exact.value_of_neg hneg', neg_lt_neg_iff]
    exact hfits'.abs_lt hfits (by omega)

/-- Doubles compare as the numbers they stand for. -/
theorem compare_of_denotes (hx : Denotes x p) (hy : Denotes y r) :
    x.toModel.unpack.compare y.toModel.unpack = some (compare p r) := by
  by_cases h : body x ≠ 0 ∨ body y ≠ 0
  · rw [compare_unpack (ne_nan_of_denotes hx) (ne_nan_of_denotes hy) h]
    rcases lt_trichotomy (place x) (place y) with hplace | hplace | hplace
    · rw [compare_lt_iff_lt.2 hplace, compare_lt_iff_lt.2 (lt_of_place_lt hx hy h hplace)]
    · obtain rfl := place_inj hplace
      rw [denotes_unique hx hy, compare_eq_iff_eq.2 rfl, compare_eq_iff_eq.2 rfl]
    · rw [compare_gt_iff_gt.2 hplace, compare_gt_iff_gt.2 (lt_of_place_lt hy hx h.symm hplace)]
  · have hx0 : body x = 0 := by omega
    have hy0 : body y = 0 := by omega
    rw [unpack_zero hx0, unpack_zero hy0, denotes_unique hx (body_eq_zero_iff_denotes.1 hx0),
      denotes_unique hy (body_eq_zero_iff_denotes.1 hy0), compare_eq_iff_eq.2 rfl]
    rfl

theorem Denotes.lt_iff (hx : Denotes x p) (hy : Denotes y r) : x < y ↔ p < r := by
  have hlt : x < y ↔ (x.toModel.unpack.compare y.toModel.unpack == some .lt) = true := decide_eq_true_iff
  rw [hlt, compare_of_denotes hx hy, beq_iff_eq, Option.some.injEq, compare_lt_iff_lt]

theorem Denotes.le_iff (hx : Denotes x p) (hy : Denotes y r) : x ≤ y ↔ p ≤ r := by
  have hle : x ≤ y ↔ (x.toModel.unpack.compare y.toModel.unpack).any (·.isLE) = true := decide_eq_true_iff
  rw [hle, compare_of_denotes hx hy, Option.any_some, Ordering.isLE_iff_ne_gt]
  exact compare_le_iff_le

theorem Denotes.beq_iff (hx : Denotes x p) (hy : Denotes y r) : (x == y) = true ↔ p = r := by
  have hbeq : (x == y) = (x.toModel.unpack.compare y.toModel.unpack == some .eq) := rfl
  rw [hbeq, compare_of_denotes hx hy, beq_iff_eq, Option.some.injEq, compare_eq_iff_eq]

theorem Denotes.ne_infinity (hx : Denotes x p) (neg : Bool) : (x == infinity neg) = false := by
  have hinf : reading (infinity neg) = .infinite neg := by cases neg <;> decide +kernel
  rw [Bool.eq_false_iff, ne_eq, beq_infinity]
  rintro rfl
  obtain ⟨e, he, -⟩ := hx
  cases hinf.symm.trans he

theorem Denotes.isNaN_eq (hx : Denotes x p) : x.isNaN = false := by
  rw [Bool.eq_false_iff, ne_eq, isNaN_iff]
  exact ne_nan_of_denotes hx

theorem Denotes.least (hx : Denotes x p) (hy : Denotes y r) : Denotes (Number.least x y) (min p r) := by
  have hlt := hx.lt_iff hy
  unfold Number.least
  simp only [hx.ne_infinity, hy.ne_infinity, hx.isNaN_eq, hy.isNaN_eq, Bool.or_self, Bool.false_eq_true, if_false]
  split
  · next hzero =>
    rw [Bool.and_eq_true, beq_zero, beq_zero, body_eq_zero_iff_denotes, body_eq_zero_iff_denotes] at hzero
    obtain ⟨hx0, hy0⟩ := hzero
    rw [denotes_unique hx hx0, denotes_unique hy hy0, min_self]
    split
    · exact hx0
    · exact hy0
  · split
    · next h => rwa [min_eq_left (hlt.1 h).le]
    · next h => rwa [min_eq_right (not_lt.1 (mt hlt.2 h))]

theorem Denotes.greatest (hx : Denotes x p) (hy : Denotes y r) : Denotes (Number.greatest x y) (max p r) := by
  have hlt := hy.lt_iff hx
  unfold Number.greatest
  simp only [hx.ne_infinity, hy.ne_infinity, hx.isNaN_eq, hy.isNaN_eq, Bool.or_self, Bool.false_eq_true, if_false]
  split
  · next hzero =>
    rw [Bool.and_eq_true, beq_zero, beq_zero, body_eq_zero_iff_denotes, body_eq_zero_iff_denotes] at hzero
    obtain ⟨hx0, hy0⟩ := hzero
    rw [denotes_unique hx hx0, denotes_unique hy hy0, max_self]
    split
    · exact hy0
    · exact hx0
  · split
    · next h => rwa [max_eq_left (hlt.1 h).le]
    · next h => rwa [max_eq_right (not_lt.1 (mt hlt.2 h))]

/-! ## Texts -/

/-- A decimal that stands for a double is read as one that stands for the same number. -/
theorem exists_denotes_readDecimal {d : Decimal} {n : Nat} (hd : d.OfUnits n) (h : Doubled (n / 1000)) (neg : Bool) :
    ∃ y, readDecimal neg d.body = .ok y ∧ Denotes y (if neg then -(n / 1000) else n / 1000) := by
  obtain ⟨e, he, hvalue⟩ := h
  have habs : (n : ℚ) / 1000 = |e.value| := by rw [hvalue, abs_of_nonneg (by positivity)]
  have hfrac : d.frac.length ≤ 3 := hd.frac
  have hlarge : ∀ k : Nat, tooSmall k (0 - d.frac.length) = false := by
    intro k
    unfold tooSmall
    simp only [decide_eq_false_iff_not]
    omega
  have hread := Decimal.readDecimal_body (hd.inRange_of_value he habs) neg
  rw [hlarge, if_neg Bool.false_ne_true, ratioBits_of_eq he (by positivity) (hd.value_eq.trans habs)] at hread
  obtain ⟨c, hc⟩ : ∃ c : Exact, c = ⟨neg, e.m, e.q⟩ := ⟨_, rfl⟩
  have hfits : c.Fits := hc ▸ ⟨he.lt, he.lo, he.hi, he.normal⟩
  have hbits : (e.q + 1074).toNat * 2 ^ 52 + e.m + (if neg then Nat.pow 2 63 else 0) = c.bits := by
    rw [hc]
    rfl
  have habs' : |c.value| = |e.value| := by rw [c.abs_value, e.abs_value, hc]
  rw [hbits] at hread
  refine ⟨_, hread, c, reading_ofBits hfits, ?_⟩
  rw [habs, ← habs']
  cases neg with
  | false => exact Exact.value_of_not_neg (by rw [hc])
  | true => exact Exact.value_of_neg (by rw [hc])

/-- A double with no more than three places is read again as one that stands for the same number. -/
theorem exists_denotes_read_fixedText {k : Int} (h : Denotes x (k / 1000)) :
    ∃ y, read (fixedText x) = .ok y ∧ Denotes y (k / 1000) := by
  have hdoubled := doubled_of_denotes h
  obtain ⟨e, hx, hvalue⟩ := h
  have hten : Nat.pow 10 places = 1000 := rfl
  have habs : ((k.natAbs : Nat) : ℚ) / 1000 = |e.value| := by
    rw [hvalue, abs_div, Nat.cast_natAbs, Int.cast_abs, abs_of_pos (by norm_num : (0 : ℚ) < 1000)]
  -- The thousandths are whole, so none are rounded away.
  have hunits : divHalfEven (e.m * 1000 * pow2Num e.q) (pow2Num (-e.q)) = k.natAbs := by
    have hwhole : e.m * 1000 * pow2Num e.q = k.natAbs * pow2Num (-e.q) := by
      have hpow : (pow2Num (-e.q) : ℚ) ≠ 0 := by exact_mod_cast (pow2Num_pos (-e.q)).ne'
      rw [e.abs_value, two_zpow_eq, div_eq_iff (by norm_num), mul_div_assoc', div_mul_eq_mul_div,
        eq_div_iff hpow] at habs
      have hnat : k.natAbs * pow2Num (-e.q) = e.m * pow2Num e.q * 1000 := by exact_mod_cast habs
      rw [hnat, mul_right_comm]
    rw [hwhole, divHalfEven_mul _ (pow2Num_pos (-e.q))]
  obtain ⟨d, hneg, hbody, hd⟩ := exists_positional (e.neg && k.natAbs != 0) k.natAbs
  have htext : (fixedText x).toList = d.chars := by
    unfold fixedText Decimal.chars
    simp only [hx, hten, hunits, hneg, hbody, String.toList_ofList]
  have hdoubled' : Doubled ((k.natAbs : Nat) / 1000) := by
    rw [habs, hvalue]
    rcases abs_choice ((k : ℚ) / 1000) with h | h <;> rw [h]
    · exact hdoubled
    · exact hdoubled.neg
  obtain ⟨y, hy, hden⟩ := exists_denotes_readDecimal hd hdoubled' d.neg
  refine ⟨y, by rw [read, htext, d.readChars_chars, hy], ?_⟩
  have hsign : (if d.neg then -((k.natAbs : Nat) / 1000 : ℚ) else (k.natAbs : Nat) / 1000) = k / 1000 := by
    rw [habs, ← hvalue, hneg]
    cases he : e.neg with
    | false => rw [Bool.false_and, if_neg Bool.false_ne_true, ← Exact.value_of_not_neg he]
    | true =>
      rw [Bool.true_and]
      split
      · exact (Exact.value_of_neg he).symm
      · next hzero =>
        have hk : k = 0 := by simpa using hzero
        rw [hvalue, hk]
        norm_num
  rwa [hsign] at hden

theorem isFinite_of_denotes (h : Denotes x r) : isFinite x := by
  obtain ⟨e, hx, -⟩ := h
  unfold isFinite
  rw [hx]

/-- The text of a finite double is a single part of a list of numbers, and has no unit. -/
theorem isPart_fixedText (h : isFinite x) : Numbers.IsPart (fixedText x) ∧ 'x' ∉ (fixedText x).toList := by
  obtain ⟨d, hd, -⟩ := exists_decimal h
  have hwritten : ∀ c ∈ (fixedText x).toList, isWritten c := fun c hc => d.isWritten_of_mem (hd ▸ hc)
  refine ⟨⟨?_, fun c hc => ?_⟩, fun hx => absurd (hwritten 'x' hx) (by decide)⟩
  · obtain ⟨c, cs, hbody, -⟩ := d.exists_body_eq_cons
    rw [hd]
    unfold Decimal.chars
    split <;> simp [hbody]
  · have hc := hwritten c hc
    simp only [isWritten, Bool.or_eq_true, isDigit_iff, beq_iff_eq] at hc
    unfold Numbers.isSeparator Text.isBlank
    simp only [Bool.or_eq_false_iff, Bool.and_eq_false_iff, decide_eq_false_iff_not, beq_eq_false_iff_ne]
    rcases hc with (hc | rfl) | rfl
    · have hcomma : c ≠ ',' := by
        rintro rfl
        revert hc
        decide
      exact ⟨by omega, hcomma⟩
    · decide
    · decide

/-! ## Halves of integers -/

theorem doubled_zero : Doubled 0 :=
  ⟨⟨false, 0, -1074⟩, ⟨by decide, by decide, by decide, .inr rfl⟩, by simp [Exact.value]⟩

/-- A double stands for half a natural number that is not too large. -/
theorem doubled_half_natCast {n : Nat} (h : n ≤ 2 ^ 53) : Doubled (n / 2) := by
  rcases Nat.eq_zero_or_pos n with rfl | hpos
  · simpa using doubled_zero
  have hlo : 2 ^ n.log2 ≤ n := Nat.log2_self_le hpos.ne'
  have hhi : n < 2 ^ (n.log2 + 1) := Nat.lt_log2_self
  rcases Nat.lt_or_ge n.log2 53 with hlog | hlog
  · obtain ⟨k, hk⟩ : ∃ k, k = 52 - n.log2 := ⟨_, rfl⟩
    have hsplit : n.log2 + k = 52 := by omega
    refine ⟨⟨false, n * 2 ^ k, -(k : Int) - 1⟩, ⟨?_, ?_, ?_, .inl ?_⟩, ?_⟩
    · calc n * 2 ^ k < 2 ^ (n.log2 + 1) * 2 ^ k := by gcongr
        _ = 2 ^ 53 := by rw [← pow_add]; congr 1; omega
    · show (-1074 : Int) ≤ -(k : Int) - 1
      omega
    · show -(k : Int) - 1 ≤ 971
      omega
    · calc 2 ^ 52 = 2 ^ n.log2 * 2 ^ k := by rw [← pow_add, hsplit]
        _ ≤ n * 2 ^ k := by gcongr
    · unfold Exact.value
      simp only [Bool.false_eq_true, if_false]
      rw [zpow_sub₀ two_ne_zero, zpow_neg, zpow_natCast]
      push_cast
      field_simp
  · obtain rfl : n = 2 ^ 53 := le_antisymm h ((Nat.pow_le_pow_right (by decide) hlog).trans hlo)
    refine ⟨⟨false, 2 ^ 52, 0⟩, ⟨by decide, by decide, by decide, .inl le_rfl⟩, ?_⟩
    norm_num [Exact.value]

/-- The double stands for half an integer of at most this size. -/
structure Measures (B : Nat) (x : Float) (r : ℚ) : Prop where
  denotes : Denotes x r
  half : ∃ n : Int, r = n / 2
  bound : |r| ≤ B

theorem doubled_of_half {n : Int} (hr : r = n / 2) (h : |r| ≤ 2 ^ 52) : Doubled r := by
  have hn : n.natAbs ≤ 2 ^ 53 := by
    rw [hr, abs_div, abs_of_pos (by norm_num : (0 : ℚ) < 2), div_le_iff₀ (by norm_num)] at h
    have habs : ((n.natAbs : Nat) : ℚ) ≤ 2 ^ 53 := by
      rw [Nat.cast_natAbs, Int.cast_abs]
      linarith
    exact_mod_cast habs
  have hdoubled := doubled_half_natCast hn
  rcases Int.natAbs_eq n with hneg | hneg
  · rwa [hr, hneg]
  · rw [hr, hneg]
    simpa [neg_div] using hdoubled.neg

namespace Measures

variable {A B : Nat}

theorem mono (h : Measures A x p) (hAB : A ≤ B) : Measures B x p :=
  ⟨h.denotes, h.half, h.bound.trans (by exact_mod_cast hAB)⟩

theorem of_denotes {k : Int} (h : Denotes x k) (hk : k.natAbs ≤ B) : Measures B x k := by
  refine ⟨h, ⟨2 * k, by push_cast; ring⟩, ?_⟩
  have habs : ((k.natAbs : Nat) : ℚ) ≤ B := by exact_mod_cast hk
  rwa [Nat.cast_natAbs, Int.cast_abs] at habs

theorem zero : Measures 0 Scalar.zero 0 := by
  have hzero : Denotes Scalar.zero 0 := body_eq_zero_iff_denotes.1 (by decide +kernel : body (ofInt 0) = 0)
  exact ⟨hzero, ⟨0, by norm_num⟩, by norm_num⟩

/-- The result of an operation that is exact on doubles. -/
theorem of_doubled (hx : Doubled r → Denotes x r) (hhalf : ∃ n : Int, r = n / 2) (hbound : |r| ≤ B) (h : B ≤ 2 ^ 52) :
    Measures B x r := by
  obtain ⟨n, hn⟩ := id hhalf
  have hrange : (B : ℚ) ≤ 2 ^ 52 := by exact_mod_cast h
  exact ⟨hx (doubled_of_half hn (hbound.trans hrange)), hhalf, hbound⟩

theorem add (hx : Measures A x p) (hy : Measures B y r) (h : A + B ≤ 2 ^ 52) : Measures (A + B) (x + y) (p + r) := by
  obtain ⟨hx, ⟨m, hm⟩, hA⟩ := hx
  obtain ⟨hy, ⟨n, hn⟩, hB⟩ := hy
  refine of_doubled (hx.add hy) ⟨m + n, by rw [hm, hn]; push_cast; ring⟩ ?_ h
  push_cast
  exact (abs_add_le p r).trans (add_le_add hA hB)

theorem neg (h : Measures A x p) : Measures A (-x) (-p) := by
  obtain ⟨hx, ⟨m, hm⟩, hA⟩ := h
  exact ⟨hx.neg, ⟨-m, by rw [hm]; push_cast; ring⟩, by rwa [abs_neg]⟩

theorem sub (hx : Measures A x p) (hy : Measures B y r) (h : A + B ≤ 2 ^ 52) : Measures (A + B) (x - y) (p - r) := by
  obtain ⟨hx, ⟨m, hm⟩, hA⟩ := hx
  obtain ⟨hy, ⟨n, hn⟩, hB⟩ := hy
  refine of_doubled (hx.sub hy) ⟨m - n, by rw [hm, hn]; push_cast; ring⟩ ?_ h
  push_cast
  exact (abs_sub p r).trans (add_le_add hA hB)

/-- The half of an integer. -/
theorem halved {k : Int} (h : Measures A x k) (hA : A ≤ 2 ^ 52) : Measures A (x / Scalar.two) (k / 2) := by
  refine of_doubled h.denotes.half ⟨k, rfl⟩ ?_ hA
  rw [abs_div, abs_of_pos (by norm_num : (0 : ℚ) < 2)]
  exact (half_le_self (abs_nonneg _)).trans h.bound

theorem least (hx : Measures A x p) (hy : Measures A y r) : Measures A (Scalar.least x y) (min p r) := by
  refine ⟨hx.denotes.least hy.denotes, ?_, ?_⟩ <;> rcases min_choice p r with h | h <;> rw [h]
  exacts [hx.half, hy.half, hx.bound, hy.bound]

theorem greatest (hx : Measures A x p) (hy : Measures A y r) : Measures A (Scalar.greatest x y) (max p r) := by
  refine ⟨hx.denotes.greatest hy.denotes, ?_, ?_⟩ <;> rcases max_choice p r with h | h <;> rw [h]
  exacts [hx.half, hy.half, hx.bound, hy.bound]

/-- What is written is read again. -/
theorem exists_read_fixed (h : Measures A x p) :
    ∃ y, Scalar.read (Scalar.fixed x) = .ok y ∧ Measures A y p := by
  obtain ⟨hx, ⟨n, rfl⟩, hA⟩ := h
  have hthousandths : (n : ℚ) / 2 = ((500 * n : Int) : ℚ) / 1000 := by push_cast; ring
  rw [hthousandths] at hx
  obtain ⟨y, hread, hy⟩ := exists_denotes_read_fixedText hx
  rw [← hthousandths] at hy
  exact ⟨y, hread, hy, ⟨n, rfl⟩, hA⟩

theorem isPart_fixed (h : Measures A x p) : Numbers.IsPart (Scalar.fixed x) :=
  (isPart_fixedText (isFinite_of_denotes h.denotes)).1

end Measures

end Number

end DiagramMarkup
