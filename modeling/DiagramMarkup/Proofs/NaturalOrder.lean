import DiagramMarkup.Files.NaturalOrder
import DiagramMarkup.Proofs.Decimals

/-!
# The order of names

Sources are processed in the natural order of their names. It is not transitive on names whose numbers have leading
zeros, such as `a1b`, `a01c` and `a1`; but it is on names without them. A name that is spelled by ranks, one for every
number and one for every other character (`Ranked`), comes before another exactly if its ranks do (`naturalLess_iff`),
so such names are ordered (`ordered_of_ranked`) and sorting them leaves none in front of what comes before it.
-/

namespace DiagramMarkup.Files

open Number (digitsOf isDigit natOfDigits)

/-! ## Ranks -/

/-- The rank of a character that is no digit. Those of numbers lie between the characters in front of the digits and
the characters behind them. -/
def charRank (c : Char) : Nat := if c < '0' then c.toNat else 2 ^ 64 + c.toNat

/-- The rank of a number. -/
def numberRank (n : Nat) : Nat := '0'.toNat + n

/-- The ranks that spell a name. Its numbers are written without leading zeros and are small enough to count. -/
inductive Ranked : List Char → List Nat → Prop where
  | nil : Ranked [] []
  | char {c : Char} {cs : List Char} {ks : List Nat} : isDigit c = false → Ranked cs ks →
      Ranked (c :: cs) (charRank c :: ks)
  | number {n : Nat} {cs : List Char} {ks : List Nat} : n < 2 ^ 64 → Text.Ends isDigit cs → Ranked cs ks →
      Ranked (digitsOf n ++ cs) (numberRank n :: ks)

/-- A rank and the first of its characters. -/
inductive Leads : Char → Nat → Prop where
  | char {c : Char} : isDigit c = false → Leads c (charRank c)
  | digit {c : Char} {n : Nat} : isDigit c = true → n < 2 ^ 64 → Leads c (numberRank n)

/-- Ranks are ordered as their first characters are, unless both are numbers. -/
theorem Leads.lt_iff {c d : Char} {j k : Nat} (hc : Leads c j) (hd : Leads d k)
    (h : isDigit c = false ∨ isDigit d = false) : j < k ↔ c < d := by
  have lt : ∀ c d : Char, c < d ↔ c.toNat < d.toNat := fun _ _ => Iff.rfl
  have zero : '0'.toNat = 48 := rfl
  cases hc with
  | char hc =>
    have outside := Number.isDigit_iff.not.1 (by simpa using hc)
    cases hd with
    | char hd =>
      have outside' := Number.isDigit_iff.not.1 (by simpa using hd)
      simp only [charRank, lt, zero]
      split <;> split <;> omega
    | digit hd hn =>
      have inside := Number.isDigit_iff.1 hd
      simp only [charRank, numberRank, lt, zero]
      split <;> omega
  | digit hc hn =>
    have inside := Number.isDigit_iff.1 hc
    cases hd with
    | char hd =>
      have outside := Number.isDigit_iff.not.1 (by simpa using hd)
      simp only [charRank, numberRank, lt, zero]
      split <;> omega
    | digit hd => simp [hc, hd] at h

theorem exists_digitsOf_eq_cons (n : Nat) : ∃ d ds, digitsOf n = d :: ds ∧ isDigit d = true := by
  cases h : digitsOf n with
  | nil => exact absurd h Nat.toDigits_ne_nil
  | cons d ds => exact ⟨d, ds, rfl, Number.isDigit_of_mem_digitsOf (by rw [h]; exact List.mem_cons_self)⟩

/-! ## Comparing -/

theorem countable?_nil : countable? [] = none := by
  simp [countable?]

theorem countable?_digitsOf {n : Nat} (h : n < 2 ^ 64) : countable? (digitsOf n) = some n := by
  obtain ⟨d, ds, hds, -⟩ := exists_digitsOf_eq_cons n
  simp only [countable?, Number.natOfDigits_digitsOf]
  rw [if_neg]
  simp [hds]
  omega

theorem append_lt_append_iff (ds a b : List Char) : ds ++ a < ds ++ b ↔ a < b := by
  induction ds with
  | nil => rfl
  | cons d ds ih => rw [List.cons_append, List.cons_append, List.cons_lt_cons_self, ih]

theorem naturalLessFuel_common (fuel : Nat) {c : Char} (h : isDigit c = false) (a b : List Char) :
    naturalLessFuel (fuel + 1) (c :: a) (c :: b) = naturalLessFuel (fuel + 1) a b := by
  simp [naturalLessFuel, skipCommon, h]

theorem naturalLessFuel_nil (fuel : Nat) (b : List Char) : naturalLessFuel (fuel + 1) [] b = true ↔ [] < b := by
  simp only [naturalLessFuel, skipCommon, List.takeWhile_nil, countable?_nil]
  exact decide_eq_true_iff

theorem naturalLessFuel_cons_nil (fuel : Nat) (c : Char) (a : List Char) :
    naturalLessFuel (fuel + 1) (c :: a) [] = false := by
  unfold naturalLessFuel
  simp only [skipCommon, List.takeWhile_nil, countable?_nil]
  split
  · next h => cases h
  · simp

/-- Names that differ in their first characters, which are not both digits, are ordered by these. -/
theorem naturalLessFuel_differ (fuel : Nat) {c d : Char} (hne : c ≠ d) (h : isDigit c = false ∨ isDigit d = false)
    (a b : List Char) : naturalLessFuel (fuel + 1) (c :: a) (d :: b) = true ↔ c < d := by
  have stop : skipCommon (c :: a) (d :: b) = (c :: a, d :: b) := by simp [skipCommon, hne]
  have lex : (c :: a < d :: b) ↔ c < d := by simp [List.cons_lt_cons_iff, hne]
  unfold naturalLessFuel
  rw [stop]
  rcases h with h | h
  · simp [List.takeWhile_cons_of_neg, h, countable?_nil, lex]
  · simp only [List.takeWhile_cons_of_neg (p := isDigit) (a := d) (l := b) (by simp [h]), countable?_nil]
    split
    · next h => cases h
    · simp [lex]

theorem naturalLessFuel_end (fuel : Nat) {a b : List Char} (h : ¬(a ≠ [] ∧ b ≠ [])) :
    naturalLessFuel (fuel + 1) a b = true ↔ a < b := by
  cases a with
  | nil => exact naturalLessFuel_nil fuel b
  | cons c a =>
    obtain rfl : b = [] := by simpa using h
    simp [naturalLessFuel_cons_nil]

/-- Numbers are compared, and what follows them if they are equal. -/
theorem naturalLessFuel_number (fuel : Nat) {m n : Nat} (hm : m < 2 ^ 64) (hn : n < 2 ^ 64) {a b : List Char}
    (ha : Text.Ends isDigit a) (hb : Text.Ends isDigit b) :
    naturalLessFuel (fuel + 2) (digitsOf m ++ a) (digitsOf n ++ b) = true ↔
      m < n ∨ m = n ∧ naturalLessFuel (fuel + 1) a b = true := by
  have stop : skipCommon (digitsOf m ++ a) (digitsOf n ++ b) = (digitsOf m ++ a, digitsOf n ++ b) := by
    obtain ⟨d, ds, hd, digit⟩ := exists_digitsOf_eq_cons m
    obtain ⟨e, es, he, -⟩ := exists_digitsOf_eq_cons n
    simp [hd, he, skipCommon, digit]
  have digits : ∀ n, ∀ c ∈ digitsOf n, isDigit c = true := fun _ _ hc => Number.isDigit_of_mem_digitsOf hc
  rw [naturalLessFuel]
  simp only [stop, ha.takeWhile (digits m), ha.dropWhile (digits m), hb.takeWhile (digits n), hb.dropWhile (digits n),
    countable?_digitsOf hm, countable?_digitsOf hn]
  by_cases h : m = n
  · subst h
    by_cases rest : a ≠ [] ∧ b ≠ []
    · simp [rest]
    · have ends : (!a.isEmpty && !b.isEmpty) = false := by simpa [List.isEmpty_iff] using rest
      simp [ends, append_lt_append_iff, naturalLessFuel_end fuel rest]
  · simp [h]

/-- Names whose first ranks are not both numbers and do not begin alike are ordered by these ranks. -/
theorem naturalLessFuel_leads (fuel : Nat) {c d : Char} {j k : Nat} (hc : Leads c j) (hd : Leads d k) (hne : c ≠ d)
    (h : isDigit c = false ∨ isDigit d = false) (a b : List Char) (js ks : List Nat) :
    naturalLessFuel (fuel + 1) (c :: a) (d :: b) = true ↔ j :: js < k :: ks := by
  have below := hc.lt_iff hd h
  have above := hd.lt_iff hc h.symm
  have ne : j ≠ k := by
    rcases lt_or_gt_of_ne hne with hlt | hlt
    · exact (below.2 hlt).ne
    · exact (above.2 hlt).ne'
  rw [naturalLessFuel_differ fuel hne h, List.cons_lt_cons_iff, below]
  simp [ne]

/-- A name comes before another exactly if its ranks do. -/
theorem naturalLessFuel_iff {a b : List Char} {js ks : List Nat} (ha : Ranked a js) (hb : Ranked b ks) {fuel : Nat}
    (hfuel : a.length < fuel) : naturalLessFuel fuel a b = true ↔ js < ks := by
  induction ha generalizing b ks fuel with
  | nil =>
    obtain ⟨fuel, rfl⟩ := Nat.exists_eq_add_one_of_ne_zero hfuel.ne'
    rw [naturalLessFuel_nil]
    cases hb with
    | nil => simp
    | char => simp
    | @number n =>
      obtain ⟨d, ds, hd, -⟩ := exists_digitsOf_eq_cons n
      simp [hd]
  | @char c cs js hc hcs ih =>
    obtain ⟨fuel, rfl⟩ := Nat.exists_eq_add_one_of_ne_zero (Nat.ne_zero_of_lt hfuel)
    cases hb with
    | nil => simp [naturalLessFuel_cons_nil]
    | @char d ds ks hd hds =>
      by_cases same : c = d
      · subst same
        rw [naturalLessFuel_common fuel hc, ih hds (Nat.lt_of_succ_lt hfuel), List.cons_lt_cons_self]
      · exact naturalLessFuel_leads fuel (.char hc) (.char hd) same (.inl hc) ..
    | @number n ds ks hn _ _ =>
      obtain ⟨d, ds', hd, digit⟩ := exists_digitsOf_eq_cons n
      rw [hd, List.cons_append]
      refine naturalLessFuel_leads fuel (.char hc) (.digit digit hn) ?_ (.inl hc) ..
      rintro rfl
      simp [hc] at digit
  | @number m cs js hm hhead hcs ih =>
    obtain ⟨fuel, rfl⟩ := Nat.exists_eq_add_one_of_ne_zero (Nat.ne_zero_of_lt hfuel)
    obtain ⟨c, cs', hc, digit⟩ := exists_digitsOf_eq_cons m
    cases hb with
    | nil => simp [hc, naturalLessFuel_cons_nil]
    | @char d ds ks hd hds =>
      rw [hc, List.cons_append]
      refine naturalLessFuel_leads fuel (.digit digit hm) (.char hd) ?_ (.inr hd) ..
      rintro rfl
      simp [hd] at digit
    | @number n ds ks hn hhead' hds =>
      have shorter : cs.length < fuel := by
        rw [hc] at hfuel
        simp only [List.cons_append, List.length_cons, List.length_append] at hfuel
        omega
      obtain ⟨fuel, rfl⟩ := Nat.exists_eq_add_one_of_ne_zero (Nat.ne_zero_of_lt shorter)
      rw [naturalLessFuel_number fuel hm hn hhead hhead', ih hds shorter, List.cons_lt_cons_iff]
      simp [numberRank]

/-- A name comes before another exactly if its ranks do. -/
theorem naturalLess_iff {a b : String} {js ks : List Nat} (ha : Ranked a.toList js) (hb : Ranked b.toList ks) :
    naturalLess a b = true ↔ js < ks :=
  naturalLessFuel_iff ha hb (Nat.lt_succ_self _)

/-! ## Sorting -/

/-- Names without leading zeros and large numbers are ordered. -/
theorem ordered_of_ranked {ns : List String} (h : ∀ n ∈ ns, ∃ ks, Ranked n.toList ks) : Ordered ns where
  asymm m hm n hn hless := by
    obtain ⟨js, hjs⟩ := h m hm
    obtain ⟨ks, hks⟩ := h n hn
    rw [← Bool.not_eq_true, naturalLess_iff hks hjs]
    exact not_lt_of_gt ((naturalLess_iff hjs hks).1 hless)
  trans l hl m hm n hn hlm hmn := by
    obtain ⟨is, his⟩ := h l hl
    obtain ⟨js, hjs⟩ := h m hm
    obtain ⟨ks, hks⟩ := h n hn
    rw [← Bool.not_eq_true, naturalLess_iff his hjs, not_lt] at hlm
    rw [← Bool.not_eq_true, naturalLess_iff hjs hks, not_lt] at hmn
    rw [← Bool.not_eq_true, naturalLess_iff his hks, not_lt]
    exact hmn.trans hlm

end DiagramMarkup.Files
