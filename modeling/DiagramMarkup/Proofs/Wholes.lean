import DiagramMarkup.Proofs.Extents

/-!
# Whole doubles

A finite double stands for a rational number, and for some of them it is whole.

1. Bits below those of infinity are the bits of a double (`toBits_ofBits`), and its mantissa and exponent are read off
   them (`reading_ofBits`). So a double is known from these (`eq_of_reading`).
2. Rounding a whole number finds the double that stands for it, if there is one (`withSign_eq_self`), and a whole one
   in any case (`exists_denotes_ofInt`). Ratios within range are rounded to a double (`ratioBits_lt`).
3. So the whole part of a whole double is the double itself (`trunc_eq_self`), its integer is found up to the range of
   64 bits (`toInt_of_denotes`), and only whole doubles are the doubles of their integers (`toInt_eq_and_beq_iff`).
-/

namespace DiagramMarkup

namespace Number

open Float.Model UnpackedFloat

/-- The number that an exact value stands for. -/
def Exact.value (e : Exact) : ℚ := (if e.neg then -1 else 1) * e.m * 2 ^ e.q

/-- The double stands for this number. -/
def Denotes (x : Float) (r : ℚ) : Prop := ∃ e, reading x = .finite e ∧ e.value = r

/-! ## Bits -/

/-- Bits are put together from the sign, the exponent and the mantissa. -/
theorem packComponents_unpack (b : BitVec Format.binary64.numBits) :
    packComponents .binary64 (Sign.ofBitVec (unpackSign b)) (unpackExponent b) (unpackMantissa b) = b := by
  have hlt : b.toNat < 2 ^ 64 := b.isLt
  have hexp : (unpackExponent b).toNat = b.toNat / 2 ^ 52 % 2048 := by
    simp [unpackExponent, Nat.shiftRight_eq_div_pow]
  have hman : (unpackMantissa b).toNat = b.toNat % 2 ^ 52 := by
    simp [unpackMantissa, Nat.shiftRight_eq_div_pow]
  have hbit : (unpackSign b).toNat = b.toNat / 2 ^ 63 := by
    simp [unpackSign, Nat.shiftRight_eq_div_pow]
    omega
  have hsign : (Sign.ofBitVec (unpackSign b)).toBitVec = unpackSign b := by
    generalize unpackSign b = s
    revert s
    decide
  rw [← BitVec.toNat_inj]
  unfold packComponents
  rw [hsign, BitVec.toNat_append, BitVec.toNat_append, ← Nat.shiftLeft_add_eq_or_of_lt (BitVec.isLt _),
    ← Nat.shiftLeft_add_eq_or_of_lt (BitVec.isLt _), hexp, hman, hbit]
  simp only [Nat.shiftLeft_eq]
  omega

/-- Bits of finite doubles are kept. -/
theorem pack_unpack {b : BitVec Format.binary64.numBits} (h : unpackExponent b ≠ -1#_) :
    UnpackedFloat.pack .binary64 (UnpackedFloat.unpack .binary64 b) = b := by
  have hparts := packComponents_unpack b
  have hexp := (unpackExponent b).isLt
  have hman : (unpackMantissa b).toNat < 2 ^ 52 := (unpackMantissa b).isLt
  have hbias : Format.binary64.exponentBias = 1023 := rfl
  have hbits : Format.binary64.mantissaBits = 53 := rfl
  unfold UnpackedFloat.unpack
  dsimp only
  rw [if_neg h]
  split
  · next hzero =>
    rw [hzero] at hparts
    split
    · next hman =>
      rw [hman] at hparts
      exact hparts
    · next hman0 =>
      have hlog : (unpackMantissa b).toNat.log2 < 52 := by
        rw [Nat.log2_lt (by simpa [← BitVec.toNat_inj] using hman0)]
        exact hman
      unfold UnpackedFloat.pack
      dsimp only
      rw [hzero, hbias, hbits, if_neg (by decide), if_neg (by omega), BitVec.ofNat_toNat]
      simpa using hparts
  · next hzero =>
    have hm : (1#1 ++ unpackMantissa b).toNat = 2 ^ 52 + (unpackMantissa b).toNat := by
      rw [BitVec.toNat_append, ← Nat.shiftLeft_add_eq_or_of_lt (BitVec.isLt _)]
      rfl
    have hlog : (2 ^ 52 + (unpackMantissa b).toNat).log2 = 52 := by
      rw [Nat.log2_eq_iff (by omega)]
      omega
    have hmax : (unpackExponent b).toNat ≠ 2047 := by
      intro hmax
      exact h (BitVec.toNat_inj.1 hmax)
    have hexp' : (unpackExponent b).toNat < 2048 := hexp
    have hsum : ((unpackExponent b).toNat - ((1023 : Nat) + (52 : Nat)) + (1023 : Nat) + (52 : Nat) : Int).toNat =
        (unpackExponent b).toNat := by omega
    unfold UnpackedFloat.pack
    dsimp only
    rw [hm, hlog, hbias, hbits, hsum, if_neg (by show ¬ 2048 ≤ _; omega), if_pos rfl]
    have hlow : BitVec.ofNat 52 (2 ^ 52 + (unpackMantissa b).toNat) = unpackMantissa b := by
      rw [← BitVec.toNat_inj, BitVec.toNat_ofNat]
      omega
    rw [hlow, BitVec.ofNat_toNat]
    simpa using hparts

/-- Bits below those of infinity are the bits of a double. -/
theorem toBits_ofBits {b : Nat} (hb : b < 2 ^ 64) (h : b % 2 ^ 63 < infinityBits) :
    (Float.ofBits (UInt64.ofNat b)).toBits.toNat = b := by
  have hbits : (UInt64.ofNat b).toNat = b := UInt64.toNat_ofNat_of_lt' hb
  have hexp : @unpackExponent .binary64 (UInt64.ofNat b).toBitVec ≠ -1#_ := by
    intro hexp
    have hexp := congrArg BitVec.toNat hexp
    have hnat : (@unpackExponent .binary64 (UInt64.ofNat b).toBitVec).toNat = b / 2 ^ 52 % 2048 := by
      rw [← hbits]
      simp [unpackExponent, Nat.shiftRight_eq_div_pow]
    rw [hnat] at hexp
    replace hexp : b / 2 ^ 52 % 2048 = 2047 := hexp
    unfold infinityBits at h
    simp only [Nat.pow_eq] at h
    omega
  show (UnpackedFloat.pack .binary64 (UnpackedFloat.unpack .binary64 (UInt64.ofNat b).toBitVec)).toNat = b
  rw [pack_unpack hexp]
  exact hbits

/-! ## Mantissa and exponent -/

/-- The bits of a double from its sign, mantissa and exponent. -/
def Exact.bits (e : Exact) : Nat := (e.q + 1074).toNat * Nat.pow 2 52 + e.m + if e.neg then Nat.pow 2 63 else 0

/-- The mantissas and exponents of doubles. -/
structure Exact.Fits (e : Exact) : Prop where
  lt : e.m < 2 ^ 53
  lo : -1074 ≤ e.q
  hi : e.q ≤ 971
  normal : 2 ^ 52 ≤ e.m ∨ e.q = -1074

theorem reading_eq_finite {x : Float} {e : Exact} (h : reading x = .finite e) : e.Fits ∧ x.toBits.toNat = e.bits := by
  have hlt : x.toBits.toNat < 2 ^ 64 := x.toBits.toNat_lt
  unfold reading at h
  simp only [Nat.pow_eq, beq_iff_eq] at h
  unfold Exact.bits
  split at h
  · split at h <;> cases h
  split at h
  · cases h
    refine ⟨⟨by simp only; omega, by simp, by simp, .inr rfl⟩, ?_⟩
    simp only [Nat.pow_eq, beq_iff_eq]
    split <;> omega
  · cases h
    refine ⟨⟨by simp only; omega, by simp only; omega, by simp only; omega, .inl (by simp only; omega)⟩, ?_⟩
    simp only [Nat.pow_eq, beq_iff_eq]
    split <;> omega

/-- A double is known from its sign, mantissa and exponent. -/
theorem eq_of_reading {x y : Float} {e : Exact} (hx : reading x = .finite e) (hy : reading y = .finite e) : x = y :=
  bits_inj ((reading_eq_finite hx).2.trans (reading_eq_finite hy).2.symm)

theorem Exact.Fits.bits_lt {e : Exact} (h : e.Fits) : e.bits < 2 ^ 64 ∧ e.bits % 2 ^ 63 < infinityBits := by
  obtain ⟨hlt, hlo, hhi, hnormal⟩ := h
  unfold Exact.bits infinityBits
  simp only [Nat.pow_eq]
  split <;> omega

theorem reading_ofBits {e : Exact} (h : e.Fits) : reading (Float.ofBits (UInt64.ofNat e.bits)) = .finite e := by
  have hbits := toBits_ofBits h.bits_lt.1 h.bits_lt.2
  obtain ⟨hlt, hlo, hhi, hnormal⟩ := h
  obtain ⟨neg, m, q⟩ := e
  unfold reading
  simp only [hbits]
  unfold Exact.bits
  simp only [Nat.pow_eq, beq_iff_eq] at *
  have hsign : ((q + 1074).toNat * 2 ^ 52 + m + if neg then 2 ^ 63 else 0) / 2 ^ 63 = if neg then 1 else 0 := by
    split <;> omega
  have hfield : ((q + 1074).toNat * 2 ^ 52 + m + if neg then 2 ^ 63 else 0) / 2 ^ 52 % 2048 =
      (q + 1074).toNat + m / 2 ^ 52 := by
    split <;> omega
  have hlow : ((q + 1074).toNat * 2 ^ 52 + m + if neg then 2 ^ 63 else 0) % 2 ^ 52 = m % 2 ^ 52 := by
    split <;> omega
  have hsame : ((if neg then 1 else 0 : Nat) == 1) = neg := by cases neg <;> rfl
  rw [hsign, hfield, hlow, hsame, if_neg (by omega)]
  split
  · next hzero =>
    obtain ⟨rfl, hm⟩ : q = -1074 ∧ m < 2 ^ 52 := by omega
    rw [Nat.mod_eq_of_lt hm]
  · next hzero =>
    have hm : 2 ^ 52 + m % 2 ^ 52 = m := by omega
    have hq : (((q + 1074).toNat + m / 2 ^ 52 : Nat) : Int) - 1075 = q := by omega
    rw [hm, hq]

/-! ## The value -/

theorem two_zpow_eq (q : Int) : (2 : ℚ) ^ q = pow2Num q / pow2Num (-q) := by
  unfold pow2Num
  simp only [Nat.pow_eq]
  rcases Int.le_total 0 q with h | h
  · obtain ⟨n, rfl⟩ := Int.eq_ofNat_of_zero_le h
    simp
  · obtain ⟨n, hn⟩ := Int.eq_ofNat_of_zero_le (Int.neg_nonneg.2 h)
    obtain rfl : q = -n := by omega
    simp

theorem pow2Num_pos (q : Int) : 0 < pow2Num q := Nat.two_pow_pos _

theorem pow2Num_of_nonpos {q : Int} (h : q ≤ 0) : pow2Num q = 1 := by
  unfold pow2Num
  rw [Int.toNat_of_nonpos h, Nat.pow_eq, Nat.pow_zero]

theorem div_eq_intCast_iff {a b : Nat} (hb : 0 < b) {n : Int} :
    (a : ℚ) / b = n ↔ a % b = 0 ∧ ((a / b : Nat) : Int) = n := by
  have hb' : (b : ℚ) ≠ 0 := by exact_mod_cast hb.ne'
  constructor
  · intro h
    have hmul : (a : Int) = n * b := by
      rw [div_eq_iff hb'] at h
      exact_mod_cast h
    have hdvd : b ∣ a := by exact_mod_cast Dvd.intro_left n hmul.symm
    refine ⟨Nat.mod_eq_zero_of_dvd hdvd, ?_⟩
    rw [Int.natCast_div, hmul]
    exact Int.mul_ediv_cancel n (by exact_mod_cast hb.ne')
  · rintro ⟨hmod, rfl⟩
    rw [div_eq_iff hb']
    have hdiv := Nat.div_add_mod a b
    rw [hmod] at hdiv
    push_cast
    exact_mod_cast (by linarith : a = a / b * b)

theorem Exact.value_eq (e : Exact) :
    e.value = (if e.neg then -1 else 1) * (((e.m * pow2Num e.q : Nat) : ℚ) / (pow2Num (-e.q) : Nat)) := by
  unfold Exact.value
  rw [two_zpow_eq, Nat.cast_mul, mul_assoc, mul_div_assoc]

/-- A value is whole if its integer part leaves no fraction. -/
theorem Exact.value_eq_iff {e : Exact} {n : Int} : e.value = n ↔ e.hasFraction = false ∧ e.truncate = n := by
  have habs := fun k => div_eq_intCast_iff (a := e.m * pow2Num e.q) (pow2Num_pos (-e.q)) (n := k)
  rw [e.value_eq]
  unfold Exact.hasFraction Exact.truncate
  simp only [bne_eq_false_iff_eq]
  generalize e.m * pow2Num e.q = a at *
  generalize pow2Num (-e.q) = b at *
  cases e.neg with
  | false =>
    rw [if_neg Bool.false_ne_true, if_neg Bool.false_ne_true, one_mul]
    exact habs n
  | true =>
    rw [if_pos rfl, if_pos rfl, neg_one_mul, neg_eq_iff_eq_neg, neg_eq_iff_eq_neg (a := ((a / b : Nat) : Int)),
      ← habs (-n), Int.cast_neg]

/-! ## Rounding whole numbers -/

theorem divHalfEven_mul (m : Nat) {d : Nat} (hd : 0 < d) : divHalfEven (m * d) d = m := by
  unfold divHalfEven
  simp [Nat.mul_div_cancel m hd, hd]

theorem divHalfEven_le {b num den : Nat} (h : num < b * den) : divHalfEven num den ≤ b := by
  have hden : 0 < den := Nat.pos_of_ne_zero fun hden => by simp [hden] at h
  have hlt : num / den < b := (Nat.div_lt_iff_lt_mul hden).2 h
  unfold divHalfEven
  dsimp only
  split <;> (try split) <;> (try split) <;> omega

theorem le_divHalfEven {a num den : Nat} (hden : 0 < den) (h : a * den ≤ num) : a ≤ divHalfEven num den := by
  have hle : a ≤ num / den := (Nat.le_div_iff_mul_le hden).2 h
  unfold divHalfEven
  dsimp only
  split <;> (try split) <;> (try split) <;> omega

/-- Is the ratio below a power of two? -/
theorem mul_pow2Num_lt_iff {num den : Nat} (hden : den ≠ 0) (k : Int) :
    num * pow2Num (-k) < den * pow2Num k ↔ (num : ℚ) / den < 2 ^ k := by
  have hden' : (0 : ℚ) < den := by exact_mod_cast Nat.pos_of_ne_zero hden
  have hpow : (0 : ℚ) < pow2Num (-k) := by exact_mod_cast pow2Num_pos (-k)
  rw [two_zpow_eq, div_lt_div_iff₀ hden' hpow, mul_comm (pow2Num k : ℚ)]
  exact_mod_cast Iff.rfl

theorem log2_bounds {n : Nat} (hn : n ≠ 0) : (2 : ℚ) ^ (n.log2 : Int) ≤ n ∧ (n : ℚ) < 2 ^ ((n.log2 : Int) + 1) := by
  have hle : 2 ^ n.log2 ≤ n := Nat.log2_self_le hn
  have hlt : n < 2 ^ (n.log2 + 1) := Nat.lt_log2_self
  exact ⟨by exact_mod_cast hle, by exact_mod_cast hlt⟩

/-- Rounding starts from the power of two below the ratio. -/
theorem exists_ratioBits_eq {num den : Nat} (hnum : num ≠ 0) (hden : den ≠ 0) :
    ∃ k : Int, (2 : ℚ) ^ k ≤ num / den ∧ (num : ℚ) / den < 2 ^ (k + 1) ∧
      ratioBits num den = (max (k - 52) (-1074) + 1074).toNat * 2 ^ 52 +
        divHalfEven (num * pow2Num (-max (k - 52) (-1074))) (den * pow2Num (max (k - 52) (-1074))) := by
  obtain ⟨hnlo, hnhi⟩ := log2_bounds hnum
  obtain ⟨hdlo, hdhi⟩ := log2_bounds hden
  have hden' : (0 : ℚ) < den := by exact_mod_cast Nat.pos_of_ne_zero hden
  have hsmall : num * pow2Num (-((num.log2 : Int) - den.log2)) < den * pow2Num ((num.log2 : Int) - den.log2) ↔
      (num : ℚ) / den < 2 ^ ((num.log2 : Int) - den.log2) := mul_pow2Num_lt_iff hden _
  have hup : (num : ℚ) / den < 2 ^ ((num.log2 : Int) - den.log2 + 1) := by
    rw [div_lt_iff₀ hden']
    calc (num : ℚ) < 2 ^ ((num.log2 : Int) + 1) := hnhi
      _ = 2 ^ ((num.log2 : Int) - den.log2 + 1) * 2 ^ (den.log2 : Int) := by
        rw [← zpow_add₀ two_ne_zero]
        ring_nf
      _ ≤ 2 ^ ((num.log2 : Int) - den.log2 + 1) * den := by gcongr
  have hdown : (2 : ℚ) ^ ((num.log2 : Int) - den.log2 - 1) ≤ num / den := by
    rw [le_div_iff₀ hden']
    calc (2 : ℚ) ^ ((num.log2 : Int) - den.log2 - 1) * den
      _ ≤ 2 ^ ((num.log2 : Int) - den.log2 - 1) * 2 ^ ((den.log2 : Int) + 1) := by gcongr
      _ = 2 ^ (num.log2 : Int) := by
        rw [← zpow_add₀ two_ne_zero]
        ring_nf
      _ ≤ num := hnlo
  unfold ratioBits
  simp only [beq_iff_eq, if_neg hnum]
  by_cases h : num * pow2Num (-((num.log2 : Int) - den.log2)) < den * pow2Num ((num.log2 : Int) - den.log2)
  · refine ⟨(num.log2 : Int) - den.log2 - 1, hdown, ?_, by rw [if_pos h]; rfl⟩
    rw [sub_add_cancel]
    exact hsmall.1 h
  · exact ⟨(num.log2 : Int) - den.log2, not_lt.1 (mt hsmall.2 h), hup, by rw [if_neg h]; rfl⟩

/-- A ratio within range is rounded to a double. -/
theorem ratioBits_lt {num den : Nat} (h : num < 2 ^ 1023 * den) : ratioBits num den < infinityBits := by
  rcases eq_or_ne num 0 with rfl | hnum
  · unfold ratioBits
    rw [if_pos (by rfl)]
    decide
  have hden : den ≠ 0 := by
    rintro rfl
    omega
  have hden' : (0 : ℚ) < den := by exact_mod_cast Nat.pos_of_ne_zero hden
  obtain ⟨k, hlo, hhi, hbits⟩ := exists_ratioBits_eq hnum hden
  have hk : k < 1023 := by
    have hlt : (num : ℚ) / den < 2 ^ (1023 : Int) := by
      rw [div_lt_iff₀ hden']
      exact_mod_cast h
    exact (zpow_lt_zpow_iff_right₀ one_lt_two).1 (hlo.trans_lt hlt)
  have hlt : num * pow2Num (-max (k - 52) (-1074)) < 2 ^ 53 * den * pow2Num (max (k - 52) (-1074)) := by
    rw [mul_pow2Num_lt_iff (Nat.mul_ne_zero (by decide) hden), Nat.cast_mul, mul_comm, ← div_div, div_lt_iff₀ (by simp)]
    refine hhi.trans_le ?_
    rw [Nat.cast_pow, Nat.cast_ofNat, ← zpow_natCast, ← zpow_add₀ two_ne_zero]
    exact zpow_le_zpow_right₀ one_le_two (by omega)
  have hround := divHalfEven_le (hlt.trans_eq (mul_assoc _ _ _))
  have hq : max (k - 52) (-1074) ≤ 970 := by omega
  rw [hbits]
  unfold infinityBits
  rw [Nat.pow_eq]
  omega

/-- The double that rounding finds for a whole number. -/
theorem withSign_eq {e : Exact} (he : e.Fits) {n : Int}
    (h : ratioBits n.natAbs 1 = (e.q + 1074).toNat * 2 ^ 52 + e.m) :
    withSign e.neg n = Float.ofBits (UInt64.ofNat e.bits) := by
  have hlt : ratioBits n.natAbs 1 < infinityBits := by
    obtain ⟨hlt, hlo, hhi, hnormal⟩ := he
    rw [h]
    unfold infinityBits
    rw [Nat.pow_eq]
    omega
  rw [h] at hlt
  unfold withSign ofRatio?
  simp only [h, if_pos hlt]
  rfl

theorem Exact.abs_value (e : Exact) : |e.value| = e.m * 2 ^ e.q := by
  have hpos : (0 : ℚ) ≤ e.m * 2 ^ e.q := by positivity
  unfold value
  cases e.neg <;> simp [abs_mul]

/-- A ratio is rounded to the double that stands for it, if there is one. -/
theorem ratioBits_of_eq {e : Exact} (he : e.Fits) {num den : Nat} (hden : den ≠ 0)
    (h : (num : ℚ) / den = |e.value|) : ratioBits num den = (e.q + 1074).toNat * 2 ^ 52 + e.m := by
  obtain ⟨hlt, hlo, hhi, hnormal⟩ := he
  rw [e.abs_value] at h
  have hden' : (den : ℚ) ≠ 0 := by exact_mod_cast hden
  have hpow : (0 : ℚ) < 2 ^ e.q := by positivity
  have hm' : (e.m : ℚ) < 2 ^ (53 : Int) := by exact_mod_cast hlt
  rcases eq_or_ne num 0 with rfl | hnum
  · have hm : e.m = 0 := by
      rw [Nat.cast_zero, zero_div, zero_eq_mul, or_iff_left hpow.ne'] at h
      exact_mod_cast h
    have hbits : ratioBits 0 den = 0 := rfl
    rw [hm, hbits]
    omega
  obtain ⟨k, hklo, hkhi, hbits⟩ := exists_ratioBits_eq hnum hden
  rw [h] at hklo hkhi
  have hm : e.m ≠ 0 := by
    intro hm
    rw [hm, Nat.cast_zero, zero_mul] at hklo
    exact absurd hklo (not_le.2 (by positivity))
  have hk : k < 53 + e.q := by
    refine (zpow_lt_zpow_iff_right₀ (one_lt_two : (1 : ℚ) < 2)).1 (hklo.trans_lt ?_)
    rw [zpow_add₀ two_ne_zero]
    gcongr
  have hmax : max (k - 52) (-1074) = e.q := by
    rcases hnormal with hnormal | hq
    · have hnormal' : (2 : ℚ) ^ (52 : Int) ≤ e.m := by exact_mod_cast hnormal
      have hk' : 52 + e.q < k + 1 := by
        refine (zpow_lt_zpow_iff_right₀ (one_lt_two : (1 : ℚ) < 2)).1 (lt_of_le_of_lt ?_ hkhi)
        rw [zpow_add₀ two_ne_zero]
        gcongr
      omega
    · omega
  have hexact : num * pow2Num (-e.q) = e.m * (den * pow2Num e.q) := by
    have hdown : (pow2Num (-e.q) : ℚ) ≠ 0 := by exact_mod_cast (pow2Num_pos (-e.q)).ne'
    rw [two_zpow_eq, mul_div_assoc', div_eq_div_iff hden' hdown] at h
    have hnat : num * pow2Num (-e.q) = e.m * pow2Num e.q * den := by exact_mod_cast h
    rw [hnat, mul_assoc, mul_comm den]
  rw [hbits, hmax, hexact, divHalfEven_mul _ (Nat.mul_pos (Nat.pos_of_ne_zero hden) (pow2Num_pos e.q))]

/-- A whole number is rounded to the double that stands for it, if there is one. -/
theorem ratioBits_of_value {e : Exact} (he : e.Fits) {n : Int} (hn : e.value = n) :
    ratioBits n.natAbs 1 = (e.q + 1074).toNat * 2 ^ 52 + e.m := by
  refine ratioBits_of_eq he one_ne_zero ?_
  rw [hn, Nat.cast_one, div_one, Nat.cast_natAbs, Int.cast_abs]

/-- A double with a whole value is what rounding that value gives. -/
theorem withSign_eq_self {x : Float} {e : Exact} {n : Int} (hx : reading x = .finite e) (hn : e.value = n) :
    withSign e.neg n = x := by
  have he := (reading_eq_finite hx).1
  rw [withSign_eq he (ratioBits_of_value he hn)]
  exact eq_of_reading (reading_ofBits he) hx

/-- The whole part of a whole double is the double. -/
theorem trunc_eq_self {x : Float} {n : Int} (h : Denotes x n) : trunc x = x := by
  obtain ⟨e, hx, hn⟩ := h
  unfold trunc roundWith
  rw [hx]
  simp only [(Exact.value_eq_iff.1 hn).2]
  exact withSign_eq_self hx hn

/-- The integer of a whole double, or the least one if it is out of range. -/
theorem toInt_of_denotes {x : Float} {n : Int} (h : Denotes x n) :
    toInt x = if leastInt ≤ n ∧ n ≤ greatestInt then n else leastInt := by
  obtain ⟨e, hx, hn⟩ := h
  unfold toInt
  rw [hx]
  simp only [(Exact.value_eq_iff.1 hn).2, Bool.and_eq_true, decide_eq_true_eq]

theorem Exact.hasFraction_of_nonneg {e : Exact} (h : 0 ≤ e.q) : e.hasFraction = false := by
  unfold hasFraction
  rw [pow2Num_of_nonpos (Int.neg_nonpos_of_nonneg h), Nat.mod_one]
  rfl

/-- Rounding a natural number within 64 bits keeps 53 digits, which are all of them if the number has no more. -/
theorem exists_ratioBits_one {n : Nat} (h0 : n ≠ 0) (h : n ≤ 2 ^ 63) :
    ∃ (m : Nat) (q : Int), -52 ≤ q ∧ q ≤ 11 ∧ 2 ^ 52 ≤ m ∧ m ≤ 2 ^ 53 ∧
      (q ≤ 0 → n * pow2Num (-q) = m ∧ m < 2 ^ 53) ∧ ratioBits n 1 = (q + 1074).toNat * 2 ^ 52 + m := by
  obtain ⟨k, hlo, hhi, hbits⟩ := exists_ratioBits_eq h0 one_ne_zero
  rw [Nat.cast_one, div_one] at hlo hhi
  have hone : (1 : ℚ) ≤ n := by exact_mod_cast Nat.one_le_iff_ne_zero.2 h0
  have hbound : (n : ℚ) ≤ 2 ^ (63 : Int) := by exact_mod_cast h
  have hk : -1 < k := by
    have := (zpow_lt_zpow_iff_right₀ (one_lt_two : (1 : ℚ) < 2)).1 (((zpow_zero (2 : ℚ)).trans_le hone).trans_lt hhi)
    omega
  have hk' : k ≤ 63 := (zpow_le_zpow_iff_right₀ (one_lt_two : (1 : ℚ) < 2)).1 (hlo.trans hbound)
  obtain ⟨q, rfl⟩ : ∃ q : Int, k = 52 + q := ⟨k - 52, by omega⟩
  rw [show max (52 + q - 52) (-1074) = q by omega, one_mul] at hbits
  rw [zpow_add₀ two_ne_zero, mul_comm] at hlo
  rw [add_right_comm, zpow_add₀ two_ne_zero, mul_comm] at hhi
  have hge : 2 ^ 52 ≤ divHalfEven (n * pow2Num (-q)) (pow2Num q) := by
    refine le_divHalfEven (pow2Num_pos q) (not_lt.1 ?_)
    rw [mul_pow2Num_lt_iff (by decide), not_lt, le_div_iff₀ (by norm_num)]
    exact_mod_cast hlo
  have hlt : n * pow2Num (-q) < 2 ^ 53 * pow2Num q := by
    rw [mul_pow2Num_lt_iff (by decide), div_lt_iff₀ (by norm_num)]
    exact_mod_cast hhi
  refine ⟨_, q, by omega, by omega, hge, divHalfEven_le hlt, fun hq => ?_, hbits⟩
  have hexact := divHalfEven_mul (n * pow2Num (-q)) one_pos
  rw [mul_one] at hexact
  rw [pow2Num_of_nonpos hq, hexact]
  rw [pow2Num_of_nonpos hq, mul_one] at hlt
  exact ⟨rfl, hlt⟩

theorem exists_denotes_of_ratioBits {n : Int} {e : Exact} (he : e.Fits)
    (hbits : ratioBits n.natAbs 1 = (e.q + 1074).toNat * 2 ^ 52 + e.m) (hneg : e.neg = decide (n < 0))
    (hfraction : e.hasFraction = false) : ∃ k : Int, Denotes (ofInt n) k := by
  refine ⟨e.truncate, e, ?_, Exact.value_eq_iff.2 ⟨hfraction, rfl⟩⟩
  unfold ofInt
  rw [← hneg, withSign_eq he hbits]
  exact reading_ofBits he

/-- The double of an integer within 64 bits is whole. -/
theorem exists_denotes_ofInt {n : Int} (h : n.natAbs ≤ 2 ^ 63) : ∃ k : Int, Denotes (ofInt n) k := by
  rcases eq_or_ne n.natAbs 0 with h0 | h0
  · have hbits : ratioBits n.natAbs 1 = ((-1074 : Int) + 1074).toNat * 2 ^ 52 + 0 := by
      rw [h0]
      rfl
    refine exists_denotes_of_ratioBits (e := ⟨decide (n < 0), 0, -1074⟩) ⟨by norm_num, le_rfl, by norm_num, .inr rfl⟩
      hbits rfl ?_
    unfold Exact.hasFraction
    rw [Nat.zero_mul, Nat.zero_mod]
    rfl
  obtain ⟨m, q, hlo, hhi, hge, hle, hexact, hbits⟩ := exists_ratioBits_one h0 h
  rcases Int.lt_or_le 0 q with hpos | hneg
  · -- The leading 53 digits, rounded, may carry over into one digit more.
    rcases hle.lt_or_eq with hlt | rfl
    · exact exists_denotes_of_ratioBits (e := ⟨decide (n < 0), m, q⟩)
        ⟨hlt, (by omega : -1074 ≤ q), (by omega : q ≤ 971), .inl hge⟩ hbits rfl (Exact.hasFraction_of_nonneg hpos.le)
    · have hcarry : (q + 1074).toNat * 2 ^ 52 + 2 ^ 53 = (q + 1 + 1074).toNat * 2 ^ 52 + 2 ^ 52 := by omega
      exact exists_denotes_of_ratioBits (e := ⟨decide (n < 0), 2 ^ 52, q + 1⟩)
        ⟨by norm_num, (by omega : -1074 ≤ q + 1), (by omega : q + 1 ≤ 971), .inl le_rfl⟩ (hbits.trans hcarry) rfl
        (Exact.hasFraction_of_nonneg (by omega : 0 ≤ q + 1))
  · obtain ⟨hall, hlt⟩ := hexact hneg
    refine exists_denotes_of_ratioBits (e := ⟨decide (n < 0), m, q⟩)
      ⟨hlt, (by omega : -1074 ≤ q), (by omega : q ≤ 971), .inl hge⟩ hbits rfl ?_
    unfold Exact.hasFraction
    rw [pow2Num_of_nonpos hneg, mul_one, ← hall, Nat.mul_mod_left]
    rfl

/-! ## Comparisons -/

theorem ne_nan_of_denotes {x : Float} {r : ℚ} (h : Denotes x r) : x ≠ nan := by
  have hnan : reading nan = .nan := by decide +kernel
  rintro rfl
  obtain ⟨e, hx, -⟩ := h
  cases hnan.symm.trans hx

/-- Doubles other than NaN are equal if they are the same or two zeros. -/
theorem beq_iff {x y : Float} (hx : x ≠ nan) (hy : y ≠ nan) : (x == y) = true ↔ x = y ∨ body x = 0 ∧ body y = 0 := by
  have hbeq : (x == y) = (x.toModel.unpack.compare y.toModel.unpack == some .eq) := rfl
  by_cases h : body x ≠ 0 ∨ body y ≠ 0
  · rw [hbeq, compare_unpack hx hy h]
    simp only [beq_iff_eq, Option.some.injEq, compare_eq_iff_eq]
    refine ⟨fun heq => .inl (place_inj heq), ?_⟩
    rintro (rfl | hzero)
    · rfl
    · omega
  · rw [hbeq, unpack_zero (by omega), unpack_zero (by omega)]
    exact ⟨fun _ => .inr (by omega), fun _ => rfl⟩

/-- Without the sign, the bits of a double are its exponent and mantissa. -/
theorem body_of_reading {x : Float} {e : Exact} (h : reading x = .finite e) :
    body x = (e.q + 1074).toNat * 2 ^ 52 + e.m := by
  obtain ⟨⟨hlt, hlo, hhi, hnormal⟩, hbits⟩ := reading_eq_finite h
  unfold body
  rw [hbits]
  unfold Exact.bits
  simp only [Nat.pow_eq]
  split <;> omega

theorem body_eq_zero_iff {x : Float} {e : Exact} (h : reading x = .finite e) : body x = 0 ↔ e.m = 0 := by
  obtain ⟨⟨hlt, hlo, hhi, hnormal⟩, -⟩ := reading_eq_finite h
  rw [body_of_reading h]
  omega

theorem Exact.value_eq_zero_iff {e : Exact} : e.value = 0 ↔ e.m = 0 := by
  have hpow : (2 : ℚ) ^ e.q ≠ 0 := by positivity
  rw [← abs_eq_zero, e.abs_value, mul_eq_zero, or_iff_left hpow, Nat.cast_eq_zero]

/-- The zeros are the doubles that stand for zero. -/
theorem body_eq_zero_iff_denotes {x : Float} : body x = 0 ↔ Denotes x 0 := by
  constructor
  · intro h
    have hx : ∃ e, reading x = .finite e := by
      unfold body at h
      unfold reading
      simp only [Nat.pow_eq, beq_iff_eq]
      rw [if_neg (by omega)]
      split <;> exact ⟨_, rfl⟩
    obtain ⟨e, hx⟩ := hx
    exact ⟨e, hx, Exact.value_eq_zero_iff.2 ((body_eq_zero_iff hx).1 h)⟩
  · rintro ⟨e, hx, he⟩
    exact (body_eq_zero_iff hx).2 (Exact.value_eq_zero_iff.1 he)

theorem not_neg_of_value_pos {e : Exact} (h : 0 < e.value) : e.neg = false := by
  by_contra hneg
  have hpos : (0 : ℚ) ≤ e.m * 2 ^ e.q := by positivity
  unfold Exact.value at h
  rw [Bool.not_eq_false] at hneg
  rw [hneg, if_pos rfl, mul_assoc] at h
  linarith

/-- A double that stands for no negative number is not below zero. -/
theorem not_lt_zero_of_denotes {x : Float} {r : ℚ} (h : Denotes x r) (hr : 0 ≤ r) : ¬ x < 0 := by
  have hzero : body 0 = 0 := by decide
  have hlt : x < 0 ↔ (x.toModel.unpack.compare (0 : Float).toModel.unpack == some .lt) = true := decide_eq_true_iff
  by_cases h0 : body x = 0
  · rw [hlt, unpack_zero h0, unpack_zero hzero]
    exact Bool.false_ne_true
  · obtain ⟨e, hx, rfl⟩ := id h
    have hneg : e.neg = false := by
      refine not_neg_of_value_pos (hr.lt_of_ne fun hvalue => h0 ?_)
      exact (body_eq_zero_iff hx).2 (Exact.value_eq_zero_iff.1 hvalue.symm)
    have hsign : signOf x = .positive := by
      have hbits := (reading_eq_finite hx).2
      obtain ⟨hlt, hlo, hhi, hnormal⟩ := (reading_eq_finite hx).1
      unfold Exact.bits at hbits
      rw [hneg, Nat.pow_eq] at hbits
      unfold signOf
      rw [if_pos]
      simp only [Bool.false_eq_true, if_false] at hbits
      omega
    have hplace : place 0 = 0 := by decide
    rw [lt_iff (ne_nan_of_denotes h) (by decide) (.inl h0), hplace]
    unfold place
    rw [hsign]
    simp only
    omega

/-- A whole double that is not negative is not below zero, and has no fraction. -/
theorem passes_of_denotes {x : Float} {n : Nat} (h : Denotes x n) : (x < 0 || x != trunc x) = false := by
  have hwhole : Denotes x (n : Int) := h
  have heq : (x == x) = true := (beq_iff (ne_nan_of_denotes h) (ne_nan_of_denotes h)).2 (.inl rfl)
  rw [trunc_eq_self hwhole]
  simpa [heq] using not_lt_zero_of_denotes h (Nat.cast_nonneg n)

theorem toInt_le (x : Float) : toInt x ≤ greatestInt := by
  unfold toInt
  split
  · dsimp only
    split
    · next h => simpa using (Bool.and_eq_true_iff.1 h).2
    · decide
  · decide

/-- A double is the double of its integer, and that is not negative, if it is whole, not negative, and below the bound
on integers. -/
theorem toInt_eq_and_beq_iff {x : Float} {n : Nat} :
    toInt x = n ∧ (ofInt n == x) = true ↔ Denotes x n ∧ n < 2 ^ 63 := by
  have hleast : leastInt = -2 ^ 63 := rfl
  have hgreatest : greatestInt = 2 ^ 63 - 1 := rfl
  constructor
  · rintro ⟨hn, heq⟩
    have hrange := toInt_le x
    have hx : x ≠ nan := by
      rintro rfl
      have hnan : toInt nan = leastInt := by decide +kernel
      omega
    obtain ⟨k, hk⟩ := exists_denotes_ofInt (n := n) (by omega)
    refine ⟨?_, by omega⟩
    rcases (beq_iff (ne_nan_of_denotes hk) hx).1 heq with rfl | ⟨-, hzero⟩
    · rw [toInt_of_denotes hk] at hn
      split at hn
      · rw [hn] at hk
        exact_mod_cast hk
      · omega
    · have hzero : Denotes x (0 : Int) := by exact_mod_cast body_eq_zero_iff_denotes.1 hzero
      have hint := toInt_of_denotes hzero
      rw [hn, if_pos (by omega)] at hint
      obtain rfl : n = 0 := by exact_mod_cast hint
      exact_mod_cast hzero
  · rintro ⟨h, hlt⟩
    have hwhole : Denotes x (n : Int) := h
    refine ⟨by rw [toInt_of_denotes hwhole, if_pos (by omega)], ?_⟩
    obtain ⟨k, hk⟩ := exists_denotes_ofInt (n := n) (by omega)
    rw [beq_iff (ne_nan_of_denotes hk) (ne_nan_of_denotes h)]
    rcases Nat.eq_zero_or_pos n with rfl | hpos
    · exact .inr ⟨by decide, body_eq_zero_iff_denotes.2 (by exact_mod_cast h)⟩
    · obtain ⟨e, hx, he⟩ := h
      have hneg : e.neg = false := not_neg_of_value_pos (by rw [he]; exact_mod_cast hpos)
      have hself := withSign_eq_self (n := n) hx he
      rw [hneg] at hself
      have hnat : decide ((n : Int) < 0) = false := decide_eq_false (by omega)
      left
      unfold ofInt
      rw [hnat, hself]

end Number

end DiagramMarkup
