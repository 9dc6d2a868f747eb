import DiagramMarkup.Proofs.Wholes

/-!
# Exact sums of doubles

The result of an operation on doubles is rounded. Where a double stands for it, rounding finds that double.

1. Operations work on sign, mantissa and exponent (`Unpacked`), which a finite double is taken apart to and put together
   from (`denotes_iff_unpacked`, `denotes_pack`).
2. A mantissa with an exponent is rounded by shifting it to the exponent of a double. If a double stands for the same
   number, this is its exponent (`targetExponent_eq`) and no bit is lost (`round_eq`).
3. So sums, differences and halves of doubles are exact if they are doubles (`Denotes.add`, `Denotes.sub`,
   `Denotes.half`).
-/

namespace DiagramMarkup

namespace Number

open Float.Model UnpackedFloat

/-! ## Doubles in parts -/

/-- The exact value with this sign, mantissa and exponent. -/
def exactOf : Sign → Nat → Int → Exact
  | .negative, m, q => ⟨true, m, q⟩
  | .positive, m, q => ⟨false, m, q⟩

/-- A zero, or a finite double in its parts, with the number it stands for. -/
inductive Unpacked : UnpackedFloat → ℚ → Prop
  | zero (s : Sign) : Unpacked (.zero s) 0
  | finite (s : Sign) (m : Nat) (q : Int) (hm : 0 < m) (h : (exactOf s m q).Fits) :
    Unpacked (.finite s m q hm) (exactOf s m q).value

/-- A double stands for this number. -/
def Doubled (r : ℚ) : Prop := ∃ e : Exact, e.Fits ∧ e.value = r

variable {x y : Float} {s s' : Sign} {m m' : Nat} {q q' : Int} {p r : ℚ}

theorem exactOf_inj (h : exactOf s m q = exactOf s' m' q') : s = s' ∧ m = m' ∧ q = q' := by
  cases s <;> cases s' <;> cases h <;> exact ⟨rfl, rfl, rfl⟩

theorem fits_exactOf_iff : (exactOf s m q).Fits ↔ m < 2 ^ 53 ∧ -1074 ≤ q ∧ q ≤ 971 ∧ (2 ^ 52 ≤ m ∨ q = -1074) := by
  cases s <;> exact ⟨fun ⟨hlt, hlo, hhi, hnormal⟩ => ⟨hlt, hlo, hhi, hnormal⟩, fun ⟨hlt, hlo, hhi, hnormal⟩ =>
    ⟨hlt, hlo, hhi, hnormal⟩⟩

theorem value_exactOf (s : Sign) (m : Nat) (q : Int) : (exactOf s m q).value = s.apply m * 2 ^ q := by
  cases s <;> simp [exactOf, Exact.value, Sign.apply]

theorem doubled_of_denotes (h : Denotes x r) : Doubled r := by
  obtain ⟨e, hx, he⟩ := h
  exact ⟨e, (reading_eq_finite hx).1, he⟩

theorem Doubled.neg (h : Doubled r) : Doubled (-r) := by
  obtain ⟨e, ⟨hlt, hlo, hhi, hnormal⟩, rfl⟩ := h
  refine ⟨⟨!e.neg, e.m, e.q⟩, ⟨hlt, hlo, hhi, hnormal⟩, ?_⟩
  unfold Exact.value
  cases e.neg <;> simp

/-- A finite double is read as it is taken apart. -/
theorem reading_of_unpack {hm : 0 < m} (h : x.toModel.unpack = .finite s m q hm) :
    reading x = .finite (exactOf s m q) := by
  have hread := read_unpack x
  rw [h] at hread
  cases hread with
  | finite m e hm hbody hlt hmlt he hnormal =>
    have hfits : (exactOf (signOf x) m q).Fits := fits_exactOf_iff.2 ⟨hmlt, he, by omega, hnormal⟩
    have hx : x = Float.ofBits (UInt64.ofNat (exactOf (signOf x) m q).bits) := by
      refine bits_inj ?_
      rw [toBits_ofBits hfits.bits_lt.1 hfits.bits_lt.2]
      have hxlt : x.toBits.toNat < 2 ^ 64 := x.toBits.toNat_lt
      unfold body at hbody
      unfold signOf
      by_cases hsign : x.toBits.toNat / 2 ^ 63 = 0
      · simp only [if_pos hsign, exactOf, Exact.bits, Nat.pow_eq, Bool.false_eq_true, if_false]
        omega
      · simp only [if_neg hsign, exactOf, Exact.bits, Nat.pow_eq, if_true]
        omega
    have hreading := reading_ofBits hfits
    rwa [← hx] at hreading

/-- A finite double stands for a number just if its parts do. -/
theorem denotes_iff_unpacked : Denotes x r ↔ Unpacked x.toModel.unpack r := by
  constructor
  · rintro ⟨e, hx, rfl⟩
    have hread := read_unpack x
    obtain ⟨⟨hlt, hlo, hhi, hnormal⟩, -⟩ := reading_eq_finite hx
    have hbody := body_of_reading hx
    cases hu : x.toModel.unpack with
    | notANumber =>
      rw [hu] at hread
      cases hread with
      | nan h => exact absurd h (ne_nan_of_denotes ⟨e, hx, rfl⟩)
    | infinity s =>
      rw [hu] at hread
      cases hread with
      | infinite h => omega
    | zero s =>
      rw [hu] at hread
      cases hread with
      | zero h =>
        rw [Exact.value_eq_zero_iff.2 ((body_eq_zero_iff hx).1 h)]
        exact .zero _
    | finite s m q hm =>
      cases hx.symm.trans (reading_of_unpack hu)
      exact .finite s m q hm (reading_eq_finite hx).1
  · intro h
    have hread := read_unpack x
    generalize hu : x.toModel.unpack = u at h hread
    cases h with
    | zero s =>
      cases hread with
      | zero h => exact body_eq_zero_iff_denotes.1 h
    | finite s m q hm h => exact ⟨_, reading_of_unpack hu, rfl⟩

theorem unpack_of_reading (hm : 0 < m) (h : reading x = .finite (exactOf s m q)) :
    x.toModel.unpack = .finite s m q hm := by
  have hparts := denotes_iff_unpacked.1 ⟨_, h, rfl⟩
  cases hu : x.toModel.unpack with
  | finite s' m' q' hm' =>
    have hsame : exactOf s m q = exactOf s' m' q' := Reading.finite.inj (h.symm.trans (reading_of_unpack hu))
    obtain ⟨rfl, rfl, rfl⟩ := exactOf_inj hsame
    rfl
  | zero s' =>
    have hread := read_unpack x
    rw [hu] at hread
    cases hread with
    | zero h0 =>
      have hm0 := (body_eq_zero_iff h).1 h0
      cases s <;> exact absurd hm0 hm.ne'
  | infinity s' =>
    rw [hu] at hparts
    cases hparts
  | notANumber =>
    rw [hu] at hparts
    cases hparts

/-- What is put together from the parts of a double stands for their number. -/
theorem denotes_pack {u : UnpackedFloat} (h : Unpacked u r) : Denotes (.ofModel (.pack u)) r := by
  cases h with
  | zero s => cases s <;> exact body_eq_zero_iff_denotes.1 (by decide)
  | finite s m q hm h =>
    refine ⟨exactOf s m q, ?_, rfl⟩
    have hreading := reading_ofBits h
    obtain ⟨y, hy⟩ : ∃ y, y = Float.ofBits (UInt64.ofNat (exactOf s m q).bits) := ⟨_, rfl⟩
    rw [← hy] at hreading
    have hunpack := unpack_of_reading hm hreading
    have hsame : Float.ofModel (Float.Model.pack y.toModel.unpack) = y := by
      refine bits_inj ?_
      have hexp : @unpackExponent .binary64 y.toModel.toBits.toBitVec ≠ -1#_ := by
        intro hexp
        unfold Float.Model.unpack UnpackedFloat.unpack at hunpack
        rw [if_pos hexp] at hunpack
        split at hunpack <;> cases hunpack
      exact congrArg BitVec.toNat (pack_unpack hexp)
    rw [← hunpack, hsame]
    exact hreading

/-! ## Rounding -/

/-- If a double stands for a mantissa with an exponent, its exponent is the one that rounding aims at. -/
theorem targetExponent_eq {e : Exact} (he : e.Fits) (hm : m ≠ 0) (h : (m : ℚ) * 2 ^ q = e.m * 2 ^ e.q) :
    Format.binary64.targetExponent (totalExponent m q) = e.q := by
  obtain ⟨hlt, hlo, hhi, hnormal⟩ := he
  obtain ⟨hlog, hlog'⟩ := log2_bounds hm
  have htwo : (1 : ℚ) < 2 := one_lt_two
  have hm' : (e.m : ℚ) < 2 ^ (53 : Int) := by exact_mod_cast hlt
  have hupper : (m.log2 : Int) + q < 53 + e.q := by
    refine (zpow_lt_zpow_iff_right₀ htwo).1 ?_
    calc (2 : ℚ) ^ ((m.log2 : Int) + q) = 2 ^ (m.log2 : Int) * 2 ^ q := zpow_add₀ two_ne_zero _ _
      _ ≤ m * 2 ^ q := by gcongr
      _ = e.m * 2 ^ e.q := h
      _ < 2 ^ (53 : Int) * 2 ^ e.q := by gcongr
      _ = 2 ^ (53 + e.q) := (zpow_add₀ two_ne_zero _ _).symm
  have hlower : 2 ^ 52 ≤ e.m → 52 + e.q < (m.log2 : Int) + 1 + q := by
    intro hnormal
    have hnormal' : (2 : ℚ) ^ (52 : Int) ≤ e.m := by exact_mod_cast hnormal
    refine (zpow_lt_zpow_iff_right₀ htwo).1 ?_
    calc (2 : ℚ) ^ (52 + e.q) = 2 ^ (52 : Int) * 2 ^ e.q := zpow_add₀ two_ne_zero _ _
      _ ≤ e.m * 2 ^ e.q := by gcongr
      _ = m * 2 ^ q := h.symm
      _ < 2 ^ ((m.log2 : Int) + 1) * 2 ^ q := by gcongr
      _ = 2 ^ ((m.log2 : Int) + 1 + q) := (zpow_add₀ two_ne_zero _ _).symm
  have hmin : Format.binary64.minExponent = -1074 := rfl
  have hbits : Format.binary64.mantissaBits = 53 := rfl
  unfold Format.targetExponent totalExponent
  rw [hmin, hbits]
  rcases hnormal with hnormal | hq
  · have := hlower hnormal
    omega
  · omega

/-- Shifting zeros out keeps the mantissa exact. -/
theorem shiftRight_eq (m : Nat) : ∀ k : Nat, (⟨m * 2 ^ k, false, false⟩ : ExtendedMantissa) >>> k = ⟨m, false, false⟩
  | 0 => by
    rw [pow_zero, mul_one]
    rfl
  | k + 1 => by
    have hstep : (⟨m * 2 ^ (k + 1), false, false⟩ : ExtendedMantissa) >>> (k + 1) =
        ((⟨m * 2 * 2 ^ k, false, false⟩ : ExtendedMantissa) >>> k).shiftRightOne := by
      rw [pow_succ', ← mul_assoc]
      rfl
    rw [hstep, shiftRight_eq (m * 2) k]
    simp [ExtendedMantissa.shiftRightOne]

theorem shiftToTargetExponent_eq {e : Exact} (he : e.Fits) (hm : e.m ≠ 0) (k : Nat) :
    shiftToTargetExponent .binary64 (e.m * 2 ^ k) (e.q - k) .exact = (⟨e.m, false, false⟩, e.q) := by
  have hvalue : ((e.m * 2 ^ k : Nat) : ℚ) * 2 ^ (e.q - k) = e.m * 2 ^ e.q := by
    rw [zpow_sub₀ two_ne_zero, zpow_natCast]
    push_cast
    field_simp
  have htarget := targetExponent_eq he (by positivity) hvalue
  have hshift : (e.q - (e.q - k)).toNat = k := by omega
  unfold shiftToTargetExponent shiftToExponent
  simp only [htarget, hshift, ExtendedMantissa.ofMantissaAndAccuracy, shiftRight_eq, sub_add_cancel]

theorem roundWithAccuracy_eq {e : Exact} (he : e.Fits) (hm : 0 < e.m) (k : Nat) :
    roundWithAccuracy .binary64 s (e.m * 2 ^ k) (e.q - k) .exact = .finite s e.m e.q hm := by
  have hagain := shiftToTargetExponent_eq he hm.ne' 0
  simp only [pow_zero, mul_one, Nat.cast_zero, sub_zero] at hagain
  have hrounded : (⟨e.m, false, false⟩ : ExtendedMantissa).roundedMantissa = e.m := rfl
  unfold roundWithAccuracy
  simp only [shiftToTargetExponent_eq he hm.ne' k, hrounded, hagain]
  rw [dif_neg hm.ne']

/-- A mantissa with an exponent is rounded to the double that stands for the same number, if there is one. -/
theorem round_eq {e : Exact} (he : e.Fits) (hm : m ≠ 0) (hem : 0 < e.m) (h : (m : ℚ) * 2 ^ q = e.m * 2 ^ e.q) :
    round .binary64 s m q = .finite s e.m e.q hem := by
  unfold UnpackedFloat.round decreaseExponent
  simp only [targetExponent_eq he hm h, Nat.shiftLeft_eq]
  rcases Int.le_total e.q q with hq | hq
  · obtain ⟨j, rfl⟩ := Int.le.dest hq
    have hm' : m * 2 ^ j = e.m := by
      have h' : ((m * 2 ^ j : Nat) : ℚ) * 2 ^ e.q = e.m * 2 ^ e.q := by
        rw [← h, zpow_add₀ two_ne_zero, zpow_natCast]
        push_cast
        ring
      exact_mod_cast mul_right_cancel₀ (by positivity) h'
    have hj : (e.q + j - e.q).toNat = j := by omega
    have hround := roundWithAccuracy_eq (s := s) he hem 0
    simp only [pow_zero, mul_one, Nat.cast_zero, sub_zero] at hround
    rw [hj, hm', add_sub_cancel_right]
    exact hround
  · obtain ⟨j, hj⟩ := Int.le.dest hq
    obtain rfl : q = e.q - j := by omega
    have hm' : m = e.m * 2 ^ j := by
      have h' : (m : ℚ) * 2 ^ (e.q - j) = ((e.m * 2 ^ j : Nat) : ℚ) * 2 ^ (e.q - j) := by
        rw [h, zpow_sub₀ two_ne_zero, zpow_natCast]
        push_cast
        field_simp
      exact_mod_cast mul_right_cancel₀ (by positivity) h'
    have hzero : (e.q - j - e.q).toNat = 0 := by omega
    rw [hzero, pow_zero, mul_one, Nat.cast_zero, sub_zero, hm']
    exact roundWithAccuracy_eq he hem j

/-- A double that stands for the same number as a mantissa with an exponent, in its parts. -/
theorem exists_unpacked {e : Exact} (he : e.Fits) (s : Sign) (hm : m ≠ 0) (h : (m : ℚ) * 2 ^ q = e.m * 2 ^ e.q) :
    ∃ hem : 0 < e.m, Unpacked (.finite s e.m e.q hem) (s.apply m * 2 ^ q) := by
  have hem : 0 < e.m := by
    rw [Nat.pos_iff_ne_zero]
    rintro hem
    rw [hem, Nat.cast_zero, zero_mul, mul_eq_zero, or_iff_left (by positivity)] at h
    exact hm (by exact_mod_cast h)
  have hvalue : (s.apply m : ℚ) * 2 ^ q = (exactOf s e.m e.q).value := by
    rw [value_exactOf]
    cases s <;> simp [Sign.apply, h]
  refine ⟨hem, ?_⟩
  rw [hvalue]
  exact .finite s e.m e.q hem (fits_exactOf_iff.2 ⟨he.lt, he.lo, he.hi, he.normal⟩)

theorem unpacked_round (hm : m ≠ 0) (h : Doubled (m * 2 ^ q)) :
    Unpacked (round .binary64 s m q) (s.apply m * 2 ^ q) := by
  obtain ⟨e, he, hvalue⟩ := h
  have habs : (m : ℚ) * 2 ^ q = e.m * 2 ^ e.q := by
    rw [← e.abs_value, hvalue, abs_of_nonneg (by positivity)]
  obtain ⟨hem, hparts⟩ := exists_unpacked he s hm habs
  rwa [round_eq he hm hem habs]

theorem unpacked_normalize {k : Int} (s : Sign) (h : Doubled (k * 2 ^ q)) :
    Unpacked (normalize .binary64 k q s) (k * 2 ^ q) := by
  unfold UnpackedFloat.normalize
  rcases lt_trichotomy k 0 with hk | rfl | hk
  · obtain ⟨n, rfl⟩ : ∃ n : Nat, k = -n := ⟨k.natAbs, by omega⟩
    have hn : n ≠ 0 := by omega
    have hdoubled : Doubled ((n : ℚ) * 2 ^ q) := by simpa using h.neg
    rw [compare_lt_iff_lt.2 hk]
    simpa [Sign.apply] using unpacked_round (s := .negative) hn hdoubled
  · rw [compare_eq_iff_eq.2 rfl]
    simpa using Unpacked.zero s
  · obtain ⟨n, rfl⟩ : ∃ n : Nat, k = n := ⟨k.natAbs, by omega⟩
    have hn : n ≠ 0 := by omega
    have hdoubled : Doubled ((n : ℚ) * 2 ^ q) := by simpa using h
    rw [compare_gt_iff_gt.2 hk]
    simpa [Sign.apply] using unpacked_round (s := .positive) hn hdoubled

/-! ## Operations -/

theorem apply_neg (s : Sign) (k : Int) : (-s).apply k = -s.apply k := by
  cases s with
  | negative => exact (neg_neg k).symm
  | positive => rfl

theorem Unpacked.neg {u : UnpackedFloat} (h : Unpacked u r) : Unpacked u.neg (-r) := by
  cases h with
  | zero s =>
    rw [neg_zero]
    exact .zero _
  | finite s m q hm h =>
    have hvalue : -(exactOf s m q).value = (exactOf (-s) m q).value := by
      rw [value_exactOf, value_exactOf, apply_neg, Int.cast_neg, neg_mul]
    rw [hvalue]
    exact .finite _ m q hm (fits_exactOf_iff.2 (fits_exactOf_iff.1 h))

/-- A mantissa for a lower exponent. -/
theorem apply_decreaseExponent (s : Sign) (m : Nat) (h : q' ≤ q) :
    ((s.apply (decreaseExponent m q q').1 : Int) : ℚ) * 2 ^ q' = (exactOf s m q).value := by
  obtain ⟨j, rfl⟩ := Int.le.dest h
  have hj : (q' + j - q').toNat = j := by omega
  rw [value_exactOf]
  unfold decreaseExponent
  simp only [hj, Nat.shiftLeft_eq, zpow_add₀ (two_ne_zero : (2 : ℚ) ≠ 0), zpow_natCast]
  cases s <;> simp [Sign.apply] <;> ring

theorem Unpacked.add {u v : UnpackedFloat} (hu : Unpacked u p) (hv : Unpacked v r) (h : Doubled (p + r)) :
    Unpacked (UnpackedFloat.add .binary64 u v) (p + r) := by
  cases hu with
  | zero s =>
    cases hv with
    | zero s' =>
      rw [add_zero]
      show Unpacked (if s == s' then .zero s else .zero .positive) 0
      split <;> exact .zero _
    | finite s' m' q' hm' h' =>
      rw [zero_add]
      exact .finite s' m' q' hm' h'
  | finite s m q hm hfits =>
    cases hv with
    | zero s' =>
      rw [add_zero]
      exact .finite s m q hm hfits
    | finite s' m' q' hm' hfits' =>
      have hsum : (((s.apply (decreaseExponent m q (min q q')).1 + s'.apply (decreaseExponent m' q' (min q q')).1 :
          Int)) : ℚ) * 2 ^ min q q' = (exactOf s m q).value + (exactOf s' m' q').value := by
        rw [Int.cast_add, add_mul, apply_decreaseExponent s m (min_le_left q q'),
          apply_decreaseExponent s' m' (min_le_right q q')]
      rw [← hsum] at h ⊢
      exact unpacked_normalize .positive h

theorem sub_eq_add (u v : UnpackedFloat) :
    UnpackedFloat.sub .binary64 u v = UnpackedFloat.add .binary64 u v.neg := by
  cases u <;> cases v <;> try rfl
  · next s m q hm s' m' q' hm' =>
    unfold UnpackedFloat.sub UnpackedFloat.add UnpackedFloat.neg
    simp only [apply_neg, sub_eq_add_neg]

/-- The sum of two doubles is exact if it is a double. -/
theorem Denotes.add (hx : Denotes x p) (hy : Denotes y r) (h : Doubled (p + r)) : Denotes (x + y) (p + r) :=
  denotes_pack ((denotes_iff_unpacked.1 hx).add (denotes_iff_unpacked.1 hy) h)

theorem Denotes.neg (h : Denotes x r) : Denotes (-x) (-r) :=
  denotes_pack (denotes_iff_unpacked.1 h).neg

/-- The difference of two doubles is exact if it is a double. -/
theorem Denotes.sub (hx : Denotes x p) (hy : Denotes y r) (h : Doubled (p - r)) : Denotes (x - y) (p - r) := by
  have hsub : x - y = .ofModel (.pack (UnpackedFloat.add .binary64 x.toModel.unpack y.toModel.unpack.neg)) := by
    rw [← sub_eq_add]
    rfl
  rw [hsub]
  rw [sub_eq_add_neg] at h ⊢
  exact denotes_pack ((denotes_iff_unpacked.1 hx).add (denotes_iff_unpacked.1 hy).neg h)

theorem unpack_two : (ofInt 2).toModel.unpack = .finite .positive (2 ^ 52) (-51) (by decide) := by rfl

/-- Halving a mantissa with an exponent loses nothing if a double stands for the half. -/
theorem divCore_two {e : Exact} (he : e.Fits) (hm : m ≠ 0) (h : (m : ℚ) * 2 ^ (q - 1) = e.m * 2 ^ e.q) :
    ∃ k : Nat, divCore .binary64 m q (2 ^ 52) (-51) = (e.m * 2 ^ k, e.q - k, .exact) := by
  have htarget := targetExponent_eq he hm h
  have htwo : totalExponent (2 ^ 52) (-51) = 2 := by decide
  obtain ⟨T, hT⟩ : ∃ T, T = min (q - -51) (Format.binary64.targetExponent (totalExponent m q - 2)) := ⟨_, rfl⟩
  have hTq : T ≤ q + 51 := by omega
  have hTe : T ≤ e.q := by
    rw [← htarget, hT]
    unfold Format.targetExponent totalExponent
    omega
  obtain ⟨k, hk⟩ := Int.le.dest hTe
  obtain ⟨j, hj⟩ := Int.le.dest hTq
  have hshift : (q - -51 - T).toNat = j := by omega
  have hexact : m * 2 ^ j = 2 ^ 52 * (e.m * 2 ^ k) := by
    have hpow : (2 : ℚ) ^ (52 - T) * ((m : ℚ) * 2 ^ (q - 1)) = 2 ^ (52 - T) * (e.m * 2 ^ e.q) := by rw [h]
    have hleft : (2 : ℚ) ^ (52 - T) * ((m : ℚ) * 2 ^ (q - 1)) = m * 2 ^ j := by
      rw [mul_left_comm, ← zpow_add₀ two_ne_zero, ← zpow_natCast]
      congr 2
      omega
    have hright : (2 : ℚ) ^ (52 - T) * (e.m * 2 ^ e.q) = 2 ^ 52 * (e.m * 2 ^ k) := by
      have hsplit : (52 : Int) - T + e.q = (52 : Nat) + k := by omega
      rw [mul_left_comm, ← zpow_add₀ two_ne_zero, hsplit, zpow_add₀ two_ne_zero, zpow_natCast, zpow_natCast]
      ring
    rw [hleft, hright] at hpow
    exact_mod_cast hpow
  refine ⟨k, ?_⟩
  unfold divCore
  simp only [htwo, ← hT, hshift, Nat.shiftLeft_eq, hexact]
  rw [Nat.mul_div_cancel_left _ (by positivity), Nat.mul_mod_right, ← hk, add_sub_cancel_right]
  rfl

theorem Unpacked.half {u : UnpackedFloat} (hu : Unpacked u r) (h : Doubled (r / 2)) :
    Unpacked (UnpackedFloat.div .binary64 u (.finite .positive (2 ^ 52) (-51) (by decide))) (r / 2) := by
  cases hu with
  | zero s =>
    rw [zero_div]
    exact .zero _
  | finite s m q hm hfits =>
    obtain ⟨e, he, hvalue⟩ := h
    have hsign : s / Sign.positive = s := by cases s <;> rfl
    have hhalf : (exactOf s m q).value / 2 = s.apply m * 2 ^ (q - 1) := by
      rw [value_exactOf, zpow_sub_one₀ two_ne_zero]
      ring
    have habs : (m : ℚ) * 2 ^ (q - 1) = e.m * 2 ^ e.q := by
      rw [← e.abs_value, hvalue, hhalf, abs_mul, abs_of_pos (by positivity : (0 : ℚ) < 2 ^ (q - 1))]
      cases s <;> simp [Sign.apply]
    obtain ⟨k, hk⟩ := divCore_two he hm.ne' habs
    obtain ⟨hem, hparts⟩ := exists_unpacked he s hm.ne' habs
    unfold UnpackedFloat.div
    simp only [hk, hsign, hhalf]
    rwa [roundWithAccuracy_eq he hem k]

/-- The half of a double is exact if it is a double. -/
theorem Denotes.half (hx : Denotes x r) (h : Doubled (r / 2)) : Denotes (x / ofInt 2) (r / 2) := by
  have hparts := (denotes_iff_unpacked.1 hx).half h
  rw [← unpack_two] at hparts
  exact denotes_pack hparts

end Number

end DiagramMarkup
