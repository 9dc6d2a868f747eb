import DiagramMarkup.Proofs.Texts
import DiagramMarkup.Proofs.Wholes

/-!
# Decimals

Numbers in attributes are written so that they can be read again.

1. What is written is a decimal (`Decimal`): digits, and a point with more of them behind it if there is a fraction.
   Its digits count units of the last place (`Decimal.units`); those of three places are the value, rounded
   (`exists_positional`).
2. A decimal is read if the ratio it stands for is in range (`Decimal.exists_readChars`), and the rounded value of a
   finite double is (`exists_decimal`), so it is read again (`exists_read_fixedText`).
3. Digits are only ever read as a finite double (`isFinite_readChars`).
-/

namespace DiagramMarkup

namespace Number

/-! ## Digits -/

/-- The characters that numbers are written with. -/
def isWritten (c : Char) : Bool := isDigit c || c == '-' || c == '.'

theorem isWritten_of_isDigit {c : Char} (h : isDigit c) : isWritten c := by
  simp [isWritten, h]

theorem isDigit_iff {c : Char} : isDigit c = true ↔ 48 ≤ c.toNat ∧ c.toNat ≤ 57 := by
  simp only [isDigit, Bool.and_eq_true, decide_eq_true_eq]
  exact Iff.rfl

theorem lowerAscii_of_isWritten {c : Char} (h : isWritten c) : lowerAscii c = c := by
  unfold lowerAscii
  rw [if_neg]
  simp only [Bool.and_eq_true, decide_eq_true_eq, not_and]
  intro hA
  replace hA : 65 ≤ c.toNat := hA
  simp only [isWritten, Bool.or_eq_true, isDigit_iff, beq_iff_eq] at h
  rcases h with (h | rfl) | rfl
  · omega
  · exact absurd hA (by decide)
  · exact absurd hA (by decide)

/-- No letter is written in a number. -/
theorem ne_of_isWritten {c d : Char} (h : isWritten c) (hd : isWritten d = false) : c ≠ d := by
  rintro rfl
  rw [h] at hd
  cases hd

/-- A text with a character of a number is none of the words that numbers are. -/
theorem lower_ne_word {cs : List Char} {c : Char} (hc : c ∈ cs) (h : isWritten c) (word : String)
    (hword : word.toList.any isWritten = false) : (cs.map lowerAscii == word.toList) = false := by
  rw [beq_eq_false_iff_ne]
  intro heq
  have hmem : c ∈ word.toList := by
    rw [← heq, ← lowerAscii_of_isWritten h]
    exact List.mem_map_of_mem hc
  rw [List.any_eq_true.2 ⟨c, hmem, h⟩] at hword
  cases hword

theorem natOfDigits_append (base : Nat) (as bs : List Char) :
    natOfDigits base (as ++ bs) = natOfDigits base as * base ^ bs.length + natOfDigits base bs := by
  have hfold : ∀ (bs : List Char) (n : Nat), bs.foldl (fun n c => n * base + digitValue c) n =
      n * base ^ bs.length + natOfDigits base bs := by
    intro bs
    unfold natOfDigits
    induction bs with
    | nil => simp
    | cons b bs ih =>
      intro n
      simp only [List.foldl_cons, List.length_cons]
      rw [ih, ih (0 * base + digitValue b)]
      ring
  unfold natOfDigits
  rw [List.foldl_append, hfold]
  rfl

theorem natOfDigits_replicate (base k : Nat) : natOfDigits base (List.replicate k '0') = 0 := by
  induction k with
  | zero => rfl
  | succ k ih =>
    have hzero : natOfDigits base ['0'] = 0 := by simp [natOfDigits, digitValue, isDigit]
    rw [List.replicate_succ', natOfDigits_append, ih, hzero, zero_mul]

theorem takeWhile_zeros (ds : List Char) :
    ds.takeWhile (· == '0') = List.replicate (ds.takeWhile (· == '0')).length '0' :=
  List.eq_replicate_of_mem fun c hc => by simpa using List.mem_takeWhile_imp hc

/-- Zeros in front do not count. -/
theorem natOfDigits_dropWhile (base : Nat) (ds : List Char) :
    natOfDigits base (ds.dropWhile (· == '0')) = natOfDigits base ds := by
  conv_rhs => rw [← List.takeWhile_append_dropWhile (p := (· == '0')) (l := ds)]
  rw [natOfDigits_append, takeWhile_zeros, natOfDigits_replicate]
  simp

/-- What is dropped behind are zeros. -/
theorem exists_stripZeros (ds : List Char) : ∃ k, ds = stripZeros ds ++ List.replicate k '0' := by
  refine ⟨(ds.reverse.takeWhile (· == '0')).length, ?_⟩
  unfold stripZeros
  rw [← List.reverse_replicate, ← takeWhile_zeros, ← List.reverse_append, List.takeWhile_append_dropWhile,
    List.reverse_reverse]

theorem isDigit_of_mem_digitsOf {n : Nat} {c : Char} (h : c ∈ digitsOf n) : isDigit c := by
  have := Nat.isDigit_of_mem_toDigits (by decide) (by decide) h
  simpa [Char.isDigit, isDigit, Char.le_def] using this

theorem natOfDigits_digitsOf (n : Nat) : natOfDigits 10 (digitsOf n) = n := by
  have hsame : ∀ (ds : List Char) (k : Nat), (∀ c ∈ ds, isDigit c) →
      ds.foldl (fun n c => n * 10 + digitValue c) k = Nat.ofDigitChars 10 ds k := by
    intro ds
    induction ds with
    | nil => simp
    | cons d ds ih =>
      intro k hds
      rw [List.foldl_cons, Nat.ofDigitChars_cons, ih _ fun c hc => hds c (List.mem_cons_of_mem _ hc)]
      have hd : digitValue d = d.toNat - '0'.toNat := by
        unfold digitValue
        rw [if_pos (hds d List.mem_cons_self)]
        rfl
      rw [hd, mul_comm]
  exact (hsame _ 0 fun c hc => isDigit_of_mem_digitsOf hc).trans Nat.ofDigitChars_ten_toDigits

/-! ## Decimals -/

/-- A decimal as it is written: digits in front of the point, and digits behind it. -/
structure Decimal where
  neg : Bool
  whole : List Char
  frac : List Char
  nonempty : whole ≠ []
  whole_digits : ∀ c ∈ whole, isDigit c
  frac_digits : ∀ c ∈ frac, isDigit c

namespace Decimal

/-- The decimal without its sign; without a fraction it has no point. -/
def body (d : Decimal) : List Char := d.whole ++ if d.frac.isEmpty then [] else '.' :: d.frac

/-- The decimal as it is written. -/
def chars (d : Decimal) : List Char := if d.neg then '-' :: d.body else d.body

/-- The decimal in units of its last place. -/
def units (d : Decimal) : Nat := natOfDigits 10 (d.whole ++ d.frac)

/-- The decimal is rounded to a double, and short enough to try. -/
structure InRange (d : Decimal) : Prop where
  whole : d.whole.length ≤ 320
  ratio : ratioBits d.units (10 ^ d.frac.length) < infinityBits

variable {d : Decimal}

theorem isWritten_of_mem_body {c : Char} (h : c ∈ d.body) : isWritten c := by
  unfold body at h
  split at h
  · exact isWritten_of_isDigit (d.whole_digits c (by simpa using h))
  rcases List.mem_append.1 h with h | h
  · exact isWritten_of_isDigit (d.whole_digits c h)
  rcases List.mem_cons.1 h with rfl | h
  · rfl
  · exact isWritten_of_isDigit (d.frac_digits c h)

theorem isWritten_of_mem {c : Char} (h : c ∈ d.chars) : isWritten c := by
  unfold chars at h
  split at h
  · rcases List.mem_cons.1 h with rfl | h
    · rfl
    · exact isWritten_of_mem_body h
  · exact isWritten_of_mem_body h

/-- The body starts with a digit. -/
theorem exists_body_eq_cons (d : Decimal) : ∃ c cs, d.body = c :: cs ∧ isDigit c := by
  obtain ⟨c, cs, hcs⟩ := List.exists_cons_of_ne_nil d.nonempty
  refine ⟨c, cs ++ if d.frac.isEmpty then [] else '.' :: d.frac, ?_, d.whole_digits c (by simp [hcs])⟩
  unfold body
  rw [hcs, List.cons_append]

/-! ## Reading -/

theorem spanDigits_eq {ds rest : List Char} (hds : ∀ c ∈ ds, isDigit c)
    (hrest : Text.Ends (fun c => isDigit c || c == '_') rest) : spanDigits isDigit (ds ++ rest) = (ds, rest) := by
  have hok : ∀ c ∈ ds, (isDigit c || c == '_') = true := fun c hc => by simp [hds c hc]
  unfold spanDigits
  dsimp only
  rw [hrest.takeWhile hok, hrest.dropWhile hok, List.filter_eq_self.2]
  intro c hc
  simpa using ne_of_isWritten (isWritten_of_isDigit (hds c hc)) (by decide : isWritten '_' = false)

theorem mantissa_body (d : Decimal) : mantissa isDigit d.body = ⟨d.whole ++ d.frac, d.frac.length, []⟩ := by
  have hspan : spanDigits isDigit (d.frac ++ []) = (d.frac, []) := spanDigits_eq d.frac_digits (by rintro c ⟨⟩)
  rw [List.append_nil] at hspan
  unfold body mantissa
  by_cases hempty : d.frac.isEmpty
  · rw [if_pos hempty, spanDigits_eq d.whole_digits (by rintro c ⟨⟩), List.isEmpty_iff.1 hempty]
    simp
  · rw [if_neg hempty, spanDigits_eq d.whole_digits (by rintro c ⟨⟩; rfl)]
    simp only [hspan]

theorem underscoresFrom_of_not_mem (digit : Char → Bool) : ∀ {cs : List Char} {seen : Seen}, seen ≠ .underscore →
    '_' ∉ cs → underscoresFrom digit seen cs = true
  | [], seen, hseen, _ => by simpa [underscoresFrom] using hseen
  | c :: cs, seen, hseen, hcs => by
    obtain ⟨hc, hcs⟩ : '_' ≠ c ∧ '_' ∉ cs := by simpa using hcs
    have ih : ∀ seen : Seen, seen ≠ .underscore → underscoresFrom digit seen cs = true := fun seen hseen =>
      underscoresFrom_of_not_mem digit hseen hcs
    unfold underscoresFrom
    split
    · exact ih _ (by simp)
    · rw [if_neg (by simpa using hc.symm), ih _ (by simp)]
      simpa using hseen

theorem underscoresOk_of_not_mem {cs : List Char} (h : '_' ∉ cs) : underscoresOk cs = true := by
  have hsub : ∀ {c b : Char} {rest : List Char}, '_' ∉ c :: b :: rest → '_' ∉ rest := fun h hmem => h (by simp [hmem])
  unfold underscoresOk
  split
  · split <;> exact underscoresFrom_of_not_mem _ (by simp) (by first | exact h | exact hsub h)
  · exact underscoresFrom_of_not_mem _ (by simp) h

/-- A decimal is read as the double nearest to it, and as zero if it is too small to try. -/
theorem readDecimal_body (h : d.InRange) (neg : Bool) :
    readDecimal neg d.body = .ok (Float.ofBits (UInt64.ofNat
      ((if tooSmall ((d.whole ++ d.frac).dropWhile (· == '0')).length (0 - d.frac.length) then 0
        else ratioBits d.units (10 ^ d.frac.length)) + if neg then Nat.pow 2 63 else 0))) := by
  obtain ⟨hwhole, hratio⟩ := h
  have hne : (d.whole ++ d.frac).isEmpty = false := by simp [d.nonempty]
  have hunder : '_' ∉ d.body := fun hmem => absurd (isWritten_of_mem_body hmem) (by decide)
  have hlength := List.length_dropWhile_le (· == '0') (d.whole ++ d.frac)
  rw [List.length_append] at hlength
  have hzero : scale neg 0 10 0 = .ok (Float.ofBits (UInt64.ofNat (0 + if neg then Nat.pow 2 63 else 0))) := rfl
  have hunits : natOfDigits 10 ((d.whole ++ d.frac).dropWhile (· == '0')) = d.units := natOfDigits_dropWhile _ _
  have hnone : ((d.whole ++ d.frac).dropWhile (· == '0')).isEmpty → ratioBits d.units (10 ^ d.frac.length) = 0 := by
    intro hempty
    rw [← hunits, List.isEmpty_iff.1 hempty]
    rfl
  unfold readDecimal
  simp only [d.mantissa_body, hne, underscoresOk_of_not_mem hunder]
  rw [if_neg (by decide), if_neg (by decide)]
  generalize (d.whole ++ d.frac).dropWhile (· == '0') = ds at hlength hunits hnone ⊢
  by_cases hempty : ds.isEmpty
  · rw [hempty, Bool.true_or, if_pos rfl, hzero, hnone hempty, ite_self]
  · rw [Bool.eq_false_iff.2 hempty, Bool.false_or]
    split
    · exact hzero
    · have hlarge : tooLarge ds.length (0 - (d.frac.length : Int)) = false := by
        unfold tooLarge
        simp only [decide_eq_false_iff_not]
        omega
      have hup : (0 - (d.frac.length : Int)).toNat = 0 := by omega
      have hdown : (-(0 - (d.frac.length : Int))).toNat = d.frac.length := by omega
      rw [hlarge, if_neg (by decide)]
      unfold scale ofRatio?
      rw [hunits, hup, hdown]
      simp only [Nat.pow_eq, pow_zero, mul_one]
      rw [if_pos (by exact hratio)]

theorem readUnsigned_body (d : Decimal) (neg : Bool) : readUnsigned neg d.body = readDecimal neg d.body := by
  unfold readUnsigned
  split
  · next x c r hbody =>
    rw [if_neg]
    have hmem : x ∈ d.body := by
      rw [hbody]
      simp
    have hx := isWritten_of_mem_body hmem
    rw [lowerAscii_of_isWritten hx]
    simpa using ne_of_isWritten hx (by decide : isWritten 'x' = false)
  · rfl

/-- What is written as a decimal is read as one. -/
theorem readChars_chars (d : Decimal) : readChars d.chars = readDecimal d.neg d.body := by
  obtain ⟨c, cs, hcs, hc⟩ := d.exists_body_eq_cons
  have hbody : c ∈ d.body := hcs ▸ List.mem_cons_self
  have hwritten := isWritten_of_mem_body hbody
  have hmem : c ∈ d.chars := by
    unfold chars
    split
    · exact List.mem_cons_of_mem _ hbody
    · exact hbody
  rw [← d.readUnsigned_body]
  unfold readChars
  simp only [lower_ne_word hmem hwritten "nan" rfl, if_neg Bool.false_ne_true]
  have hread : (d.body.map lowerAscii == "inf".toList || d.body.map lowerAscii == "infinity".toList) = false := by
    rw [lower_ne_word hbody hwritten "inf" rfl, lower_ne_word hbody hwritten "infinity" rfl, Bool.or_self]
  cases hneg : d.neg with
  | true =>
    have hchars : d.chars = '-' :: d.body := by simp [chars, hneg]
    simp only [hchars, hread, if_neg Bool.false_ne_true]
  | false =>
    have hchars : d.chars = d.body := by simp [chars, hneg]
    split
    · next heq =>
      cases hcs.symm.trans (hchars.symm.trans heq)
      cases hc
    · next heq =>
      cases hcs.symm.trans (hchars.symm.trans heq)
      cases hc
    · simp only [hchars, hread, if_neg Bool.false_ne_true]

theorem exists_readChars (h : d.InRange) : ∃ x, readChars d.chars = .ok x := by
  rw [d.readChars_chars]
  exact ⟨_, readDecimal_body h d.neg⟩

end Decimal

/-! ## Writing -/

/-- The decimal is so many units of the last place that is written. -/
structure Decimal.OfUnits (d : Decimal) (n : Nat) : Prop where
  frac : d.frac.length ≤ places
  units : d.units * 10 ^ (places - d.frac.length) = n
  whole : ∀ w, n < 10 ^ (w + 1 + places) → d.whole.length ≤ w + 1

/-- A natural number of units is written as a decimal. -/
theorem exists_positional (neg : Bool) (n : Nat) :
    ∃ d : Decimal, d.neg = neg ∧ positional places n = d.body ∧ d.OfUnits n := by
  obtain ⟨ds, hds⟩ : ∃ ds, ds = List.replicate (places + 1 - (digitsOf n).length) '0' ++ digitsOf n := ⟨_, rfl⟩
  have hlength : ds.length = max (places + 1) (digitsOf n).length := by
    rw [hds, List.length_append, List.length_replicate]
    omega
  have hplaces : places = 3 := rfl
  have hvalue : natOfDigits 10 ds = n := by
    rw [hds, natOfDigits_append, natOfDigits_replicate, natOfDigits_digitsOf, zero_mul, zero_add]
  have hdigits : ∀ c ∈ ds, isDigit c := by
    intro c hc
    rw [hds] at hc
    rcases List.mem_append.1 hc with hc | hc
    · obtain rfl := List.eq_of_mem_replicate hc
      rfl
    · exact isDigit_of_mem_digitsOf hc
  obtain ⟨k, hk⟩ := exists_stripZeros (ds.drop (ds.length - places))
  have hsplit : ds.take (ds.length - places) ++ stripZeros (ds.drop (ds.length - places)) ++ List.replicate k '0' =
      ds := by
    rw [List.append_assoc, ← hk, List.take_append_drop]
  have hfrac : (stripZeros (ds.drop (ds.length - places))).length + k = places := by
    have := congrArg List.length hk
    rw [List.length_drop, List.length_append, List.length_replicate] at this
    omega
  refine ⟨⟨neg, ds.take (ds.length - places), stripZeros (ds.drop (ds.length - places)), ?_, ?_, ?_⟩, rfl, ?_,
    Nat.le.intro hfrac, ?_, fun w hn => ?_⟩
  · rw [ne_eq, List.take_eq_nil_iff, not_or, ← List.length_eq_zero_iff]
    omega
  · exact fun c hc => hdigits c (List.mem_of_mem_take hc)
  · refine fun c hc => hdigits c ?_
    rw [← hsplit]
    exact List.mem_append_left _ (List.mem_append_right _ hc)
  · unfold positional Decimal.body
    simp only [← hds]
    split <;> simp
  · have := congrArg (natOfDigits 10) hsplit
    rw [natOfDigits_append, natOfDigits_replicate, List.length_replicate, hvalue, add_zero] at this
    have hplaces : places - (stripZeros (ds.drop (ds.length - places))).length = k := by omega
    show natOfDigits 10 _ * 10 ^ (places - (stripZeros (ds.drop (ds.length - places))).length) = n
    rw [hplaces]
    exact this
  · have hshort : (digitsOf n).length ≤ w + 1 + places := (Nat.length_toDigits_le_iff (by decide) (by omega)).2 hn
    rw [List.length_take]
    omega

namespace Decimal.OfUnits

variable {d : Decimal}

theorem pow_mul_pow {n : Nat} (h : d.OfUnits n) : 10 ^ d.frac.length * 10 ^ (places - d.frac.length) = 1000 := by
  rw [← pow_add, Nat.add_sub_cancel' h.frac]
  rfl

/-- Decimals that are small enough are in range. -/
theorem inRange_of_le {n : Nat} (h : d.OfUnits n) (hn : n ≤ 2 ^ 53 * 1000) : d.InRange := by
  refine ⟨h.whole 319 (hn.trans_lt (by decide +kernel)), ratioBits_lt ?_⟩
  have hle : d.units ≤ 2 ^ 53 * 10 ^ d.frac.length := by
    refine Nat.le_of_mul_le_mul_right ?_ (by positivity : 0 < 10 ^ (places - d.frac.length))
    rw [h.units, mul_assoc, h.pow_mul_pow]
    exact hn
  exact hle.trans_lt (Nat.mul_lt_mul_of_pos_right (by decide +kernel) (by positivity))

/-- The units are thousandths. -/
theorem value_eq {n : Nat} (h : d.OfUnits n) : (d.units : ℚ) / (10 ^ d.frac.length : Nat) = n / 1000 := by
  have hunits : (d.units : ℚ) * 10 ^ (places - d.frac.length) = n := by exact_mod_cast h.units
  have hpow : (10 : ℚ) ^ d.frac.length * 10 ^ (places - d.frac.length) = 1000 := by exact_mod_cast h.pow_mul_pow
  rw [Nat.cast_pow, Nat.cast_ofNat, div_eq_div_iff (by positivity) (by norm_num), ← hunits, ← hpow]
  ring

/-- Decimals that stand for a double are in range. -/
theorem inRange_of_value {e : Exact} (he : e.Fits) {n : Nat} (h : d.OfUnits n) (hn : (n : ℚ) / 1000 = |e.value|) :
    d.InRange := by
  have hlt := he.lt
  have hhi := he.hi
  refine ⟨h.whole 319 ?_, ?_⟩
  · have hm : (e.m : ℚ) ≤ 2 ^ (53 : Int) := by exact_mod_cast hlt.le
    have hpow : (2 : ℚ) ^ e.q ≤ 2 ^ (971 : Int) := zpow_le_zpow_right₀ one_le_two hhi
    have hlarge : (n : ℚ) < 10 ^ (319 + 1 + places) := by
      rw [e.abs_value, div_eq_iff (by norm_num)] at hn
      calc (n : ℚ) = e.m * 2 ^ e.q * 1000 := hn
        _ ≤ 2 ^ (53 : Int) * 2 ^ (971 : Int) * 1000 := by gcongr
        _ < 10 ^ (319 + 1 + places) := by
          exact_mod_cast (by decide +kernel : 2 ^ 53 * 2 ^ 971 * 1000 < 10 ^ (319 + 1 + places))
    exact_mod_cast hlarge
  · rw [ratioBits_of_eq he (by positivity) (h.value_eq.trans hn)]
    unfold infinityBits
    rw [Nat.pow_eq]
    omega

end Decimal.OfUnits

/-- A finite double is written as a decimal in range. -/
theorem exists_decimal {x : Float} (h : isFinite x) : ∃ d : Decimal, (fixedText x).toList = d.chars ∧ d.InRange := by
  obtain ⟨e, hx⟩ : ∃ e, reading x = .finite e := by
    unfold isFinite at h
    split at h
    · next e he => exact ⟨e, he⟩
    · cases h
  have he := (reading_eq_finite hx).1
  have hten : Nat.pow 10 places = 1000 := rfl
  obtain ⟨n, hn⟩ : ∃ n, n = divHalfEven (e.m * 1000 * pow2Num e.q) (pow2Num (-e.q)) := ⟨_, rfl⟩
  obtain ⟨d, hneg, hbody, hunits⟩ := exists_positional (e.neg && n != 0) n
  refine ⟨d, ?_, ?_⟩
  · unfold fixedText Decimal.chars
    simp only [hx, hten, ← hn, hneg, hbody, String.toList_ofList]
  -- Either the value is small, or it is whole, and the decimal stands for it.
  rcases Int.lt_or_le e.q 0 with hq | hq
  · refine hunits.inRange_of_le ?_
    rw [hn, pow2Num_of_nonpos hq.le]
    refine divHalfEven_le (lt_of_lt_of_le ?_ (Nat.le_mul_of_pos_right _ (pow2Num_pos _)))
    have := he.lt
    omega
  · refine hunits.inRange_of_value he ?_
    have hexact := divHalfEven_mul (e.m * 1000 * pow2Num e.q) one_pos
    have hone := pow2Num_of_nonpos (Int.neg_nonpos_of_nonneg hq)
    rw [mul_one] at hexact
    rw [hn, hone, hexact, e.abs_value, two_zpow_eq, hone]
    push_cast
    ring

/-- A finite double is read again after it has been written. -/
theorem exists_read_fixedText {x : Float} (h : isFinite x) : ∃ y, read (fixedText x) = .ok y := by
  obtain ⟨d, hd, hrange⟩ := exists_decimal h
  obtain ⟨y, hy⟩ := d.exists_readChars hrange
  exact ⟨y, by rw [read, hd, hy]⟩

/-! ## Reading finite doubles -/

/-- A double is finite if its bits are below those of infinity. -/
theorem isFinite_iff {x : Float} : isFinite x ↔ body x < infinityBits := by
  have hlt : x.toBits.toNat < 2 ^ 64 := x.toBits.toNat_lt
  unfold isFinite reading body infinityBits
  simp only [Nat.pow_eq, beq_iff_eq]
  by_cases hfield : x.toBits.toNat / 2 ^ 52 % 2048 = 2047
  · rw [if_pos hfield]
    refine iff_of_false ?_ (by omega)
    by_cases hzero : x.toBits.toNat % 2 ^ 52 = 0
    · simp only [if_pos hzero, Bool.false_eq_true, not_false_eq_true]
    · simp only [if_neg hzero, Bool.false_eq_true, not_false_eq_true]
  · rw [if_neg hfield]
    refine iff_of_true ?_ (by omega)
    by_cases hzero : x.toBits.toNat / 2 ^ 52 % 2048 = 0
    · simp only [if_pos hzero]
    · simp only [if_neg hzero]

theorem isFinite_ofRatio? {neg : Bool} {num den : Nat} {x : Float} (h : ofRatio? neg num den = some x) :
    isFinite x := by
  unfold ofRatio? at h
  dsimp only at h
  split at h
  · next hlt =>
    cases h
    have hsmall := hlt
    unfold infinityBits at hsmall
    rw [Nat.pow_eq] at hsmall
    have hbody : (ratioBits num den + if neg then Nat.pow 2 63 else 0) % 2 ^ 63 = ratioBits num den := by
      rw [Nat.pow_eq]
      split <;> omega
    rw [isFinite_iff, body, toBits_ofBits, hbody]
    · exact hlt
    · rw [Nat.pow_eq]
      split <;> omega
    · rwa [hbody]
  · cases h

theorem isFinite_scale {neg : Bool} {n base : Nat} {e : Int} {x : Float} (h : scale neg n base e = .ok x) :
    isFinite x := by
  unfold scale at h
  split at h
  · next y hy =>
    cases h
    exact isFinite_ofRatio? hy
  · cases h

theorem isFinite_readDecimal {neg : Bool} {cs : List Char} {x : Float} (h : readDecimal neg cs = .ok x) :
    isFinite x := by
  unfold readDecimal at h
  dsimp only at h
  split at h
  · cases h
  split at h
  · cases h
  split at h
  · cases h
  split at h
  · exact isFinite_scale h
  split at h
  · cases h
  · exact isFinite_scale h

theorem isFinite_readHex {neg : Bool} {all cs : List Char} {x : Float} (h : readHex neg all cs = .ok x) :
    isFinite x := by
  unfold readHex at h
  dsimp only at h
  split at h
  · cases h
  split at h
  · split at h
    · cases h
    split at h
    · cases h
    split at h
    · cases h
    split at h
    · exact isFinite_scale h
    split at h
    · cases h
    · exact isFinite_scale h
  · cases h

/-- Only words are read as doubles that are not finite. -/
theorem isFinite_readChars {cs : List Char} {c : Char} (hc : c ∈ cs) (hdigit : isDigit c) {x : Float}
    (h : readChars cs = .ok x) : isFinite x := by
  have hwritten := isWritten_of_isDigit hdigit
  have hunsigned : ∀ neg ds, c ∈ ds → (if ds.map lowerAscii == "inf".toList || ds.map lowerAscii == "infinity".toList
      then .ok (infinity neg) else readUnsigned neg ds) = Except.ok x → isFinite x := by
    intro neg ds hmem hread
    rw [lower_ne_word hmem hwritten "inf" rfl, lower_ne_word hmem hwritten "infinity" rfl, if_neg (by decide)] at hread
    unfold readUnsigned at hread
    split at hread
    · split at hread
      · exact isFinite_readHex hread
      · exact isFinite_readDecimal hread
    · exact isFinite_readDecimal hread
  have hsign : ∀ {sign : Char} {r : List Char}, isDigit sign = false → c ∈ sign :: r → c ∈ r := by
    intro sign r hsign hmem
    rcases List.mem_cons.1 hmem with rfl | hmem
    · rw [hdigit] at hsign
      cases hsign
    · exact hmem
  unfold readChars at h
  simp only [lower_ne_word hc hwritten "nan" rfl] at h
  rw [if_neg (by decide)] at h
  split at h
  · exact hunsigned _ _ (hsign (by decide : isDigit '+' = false) hc) h
  · exact hunsigned _ _ (hsign (by decide : isDigit '-' = false) hc) h
  · exact hunsigned _ _ hc h

end Number

end DiagramMarkup
