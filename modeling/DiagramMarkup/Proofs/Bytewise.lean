import DiagramMarkup.Proofs.Tokens

/-!
# Expressions by bytes

An expression is read by character, and bytes are read one by one. Both readings of a text give the same tokens.

1. A character below 128 is its own byte, and no byte of another character is below 128. So what is looked for ends at the
   same place in a text and in its bytes (`Text.takeWhile_spread`, `Text.dropWhile_spread`).
2. Each scanner takes from the bytes what it takes from the text (`scanOne_spread`), and a token starts at no other
   character (`scanOne_wide`).
3. By induction over the scanned text, the tokens of the bytes are the bytes of the tokens
   (`tokenizeBytes_toBytes`). So what holds of the tokens of bytes holds of the tokens of every text
   (`tokenize_tiles`).
-/

namespace DiagramMarkup

/-! ## The bytes of characters -/

namespace Text

/-- The bytes of a text, each as the character with its number. -/
def spread (cs : List Char) : List Char := spell (toBytes cs)

variable {c : Char} {cs : List Char} {p : Char → Bool}

theorem spread_cons (c : Char) (cs : List Char) : spread (c :: cs) = spell (charBytes c) ++ spread cs := by
  rw [spread, toBytes, List.flatMap_cons, spell, List.map_append]
  rfl

theorem toNat_spell {n : Nat} (hn : n < 256) : (Char.ofNat n.toUInt8.toNat).toNat = n := by
  have hbyte : n.toUInt8.toNat = n := by
    simp only [Nat.toUInt8, UInt8.toNat_ofNat']
    omega
  rw [hbyte, Char.ofNat, dif_pos (.inl (by omega))]
  rfl

/-- A character below 128 is its own byte. -/
theorem spell_charBytes_of_lt (hc : c.toNat < 0x80) : spell (charBytes c) = [c] := by
  have hbyte := toNat_spell (n := c.toNat) (by omega)
  rw [charBytes, if_pos hc, spell, List.map_singleton]
  exact congrArg (fun d => [d]) (Char.toNat_inj.1 hbyte)

/-- The bytes of another character are not below 128, and the first is not below 192. -/
theorem spell_charBytes_of_le (hc : 0x80 ≤ c.toNat) :
    ∃ d ds, spell (charBytes c) = d :: ds ∧ 0xC0 ≤ d.toNat ∧ ∀ e ∈ ds, 0x80 ≤ e.toNat := by
  have hrange : c.toNat < 0x110000 := by
    rcases c.valid with h | h <;> exact Nat.lt_of_lt_of_le (by first | exact h | exact h.2) (by decide)
  have tail : ∀ n, 0x80 ≤ (Char.ofNat (0x80 + n % 64).toUInt8.toNat).toNat := fun n => by
    rw [toNat_spell (by omega)]
    omega
  unfold charBytes
  dsimp only
  rw [if_neg (by omega)]
  split
  · refine ⟨_, _, rfl, ?_, by simpa [spell] using tail _⟩
    rw [toNat_spell (by omega)]
    omega
  split
  · refine ⟨_, _, rfl, ?_, by simpa [spell] using ⟨tail _, tail _⟩⟩
    rw [toNat_spell (by omega)]
    omega
  · refine ⟨_, _, rfl, ?_, by simpa [spell] using ⟨tail _, tail _, tail _⟩⟩
    rw [toNat_spell (by omega)]
    omega

theorem length_charBytes (c : Char) : (charBytes c).length = c.utf8Size := by
  have hsize : c.utf8Size =
      if c.toNat < 0x80 then 1 else if c.toNat < 0x800 then 2 else if c.toNat < 0x10000 then 3 else 4 := by
    simp only [Char.utf8Size, UInt32.le_iff_toNat_le, UInt32.toNat_ofNatLT, ← Nat.lt_succ_iff]
    rfl
  rw [hsize]
  unfold charBytes
  dsimp only
  split
  · rfl
  split
  · rfl
  split <;> rfl

theorem length_spread (cs : List Char) : (spread cs).length = byteLength cs := by
  induction cs with
  | nil => rfl
  | cons c cs ih =>
    rw [spread_cons, List.length_append, ih, spell, List.length_map, length_charBytes]
    rfl

theorem spread_cons_of_lt (hc : c.toNat < 0x80) (cs : List Char) : spread (c :: cs) = c :: spread cs := by
  rw [spread_cons, spell_charBytes_of_lt hc]
  rfl

theorem spread_cons_of_le (hc : 0x80 ≤ c.toNat) :
    ∃ d ds, (∀ cs, spread (c :: cs) = d :: (ds ++ spread cs)) ∧ 0xC0 ≤ d.toNat ∧ ∀ e ∈ ds, 0x80 ≤ e.toNat := by
  obtain ⟨d, ds, hspell, hd, hds⟩ := spell_charBytes_of_le hc
  exact ⟨d, ds, fun cs => by rw [spread_cons, hspell, List.cons_append], hd, hds⟩

theorem spread_ne_nil (h : cs ≠ []) : spread cs ≠ [] := by
  obtain ⟨c, cs, rfl⟩ := List.exists_cons_of_ne_nil h
  rcases Nat.lt_or_ge c.toNat 0x80 with hc | hc
  · rw [spread_cons_of_lt hc]
    exact List.cons_ne_nil _ _
  · obtain ⟨d, ds, hspread, -⟩ := spread_cons_of_le hc
    rw [hspread]
    exact List.cons_ne_nil _ _

theorem spread_of_lt : ∀ {cs : List Char}, (∀ c ∈ cs, c.toNat < 0x80) → spread cs = cs
  | [], _ => rfl
  | c :: cs, h => by
    obtain ⟨hc, hcs⟩ := List.forall_mem_cons.1 h
    rw [spread_cons_of_lt hc, spread_of_lt hcs]

/-- A byte below 128 is a character of the text. -/
theorem spread_eq_cons_iff {a : Char} (ha : a.toNat < 0x80) {r : List Char} :
    spread cs = a :: r ↔ ∃ r', cs = a :: r' ∧ r = spread r' := by
  constructor
  · intro h
    cases cs with
    | nil => cases h
    | cons c cs =>
      rcases Nat.lt_or_ge c.toNat 0x80 with hc | hc
      · rw [spread_cons_of_lt hc] at h
        obtain ⟨rfl, rfl⟩ := List.cons.inj h
        exact ⟨cs, rfl, rfl⟩
      · obtain ⟨d, ds, hspread, hd, -⟩ := spread_cons_of_le hc
        rw [hspread] at h
        obtain ⟨rfl, -⟩ := List.cons.inj h
        omega
  · rintro ⟨r', rfl, rfl⟩
    exact spread_cons_of_lt ha r'

/-- Only characters below 128 pass. -/
def Narrow (p : Char → Bool) : Prop := ∀ c, p c → c.toNat < 0x80

theorem Narrow.eq_false (hp : Narrow p) (hc : 0x80 ≤ c.toNat) : p c = false :=
  Bool.eq_false_iff.2 fun h => Nat.not_le_of_lt (hp c h) hc

theorem takeWhile_spread (hp : Narrow p) (cs : List Char) : (spread cs).takeWhile p = cs.takeWhile p := by
  induction cs with
  | nil => rfl
  | cons c cs ih =>
    rcases Nat.lt_or_ge c.toNat 0x80 with hc | hc
    · rw [spread_cons_of_lt hc, List.takeWhile_cons, List.takeWhile_cons, ih]
    · obtain ⟨d, ds, hspread, hd, -⟩ := spread_cons_of_le hc
      rw [hspread, List.takeWhile_cons, List.takeWhile_cons, hp.eq_false hc, hp.eq_false (by omega)]
      rfl

/-- The blanks in front may include bytes that begin no character. -/
theorem dropWhile_spread_of {q : Char → Bool} (hp : Narrow p) (hq : ∀ c, c.toNat < 0x80 → q c = p c)
    (hfirst : ∀ c, 0xC0 ≤ c.toNat → q c = false) (cs : List Char) :
    (spread cs).dropWhile q = spread (cs.dropWhile p) := by
  induction cs with
  | nil => rfl
  | cons c cs ih =>
    rcases Nat.lt_or_ge c.toNat 0x80 with hc | hc
    · rw [spread_cons_of_lt hc, List.dropWhile_cons, List.dropWhile_cons, hq c hc, ih]
      split
      · rfl
      · rw [spread_cons_of_lt hc]
    · obtain ⟨d, ds, hspread, hd, -⟩ := spread_cons_of_le hc
      rw [List.dropWhile_cons, hp.eq_false hc, hspread, List.dropWhile_cons, hfirst d hd]
      exact (hspread cs).symm

theorem dropWhile_spread (hp : Narrow p) (cs : List Char) : (spread cs).dropWhile p = spread (cs.dropWhile p) :=
  dropWhile_spread_of hp (fun _ _ => rfl) (fun _ hc => hp.eq_false (by omega)) cs

theorem spread_append (cs ds : List Char) : spread (cs ++ ds) = spread cs ++ spread ds := by
  rw [spread, toBytes, List.flatMap_append, spell, List.map_append]
  rfl

theorem mem_spread_iff {a : Char} (ha : a.toNat < 0x80) : a ∈ spread cs ↔ a ∈ cs := by
  induction cs with
  | nil => exact Iff.rfl
  | cons c cs ih =>
    rcases Nat.lt_or_ge c.toNat 0x80 with hc | hc
    · rw [spread_cons_of_lt hc, List.mem_cons, List.mem_cons, ih]
    · obtain ⟨d, ds, hspread, hd, hds⟩ := spread_cons_of_le hc
      have hac : a ≠ c := by
        rintro rfl
        omega
      have had : a ≠ d := by
        rintro rfl
        omega
      have hads : a ∉ ds := fun hmem => Nat.not_le_of_lt ha (hds a hmem)
      rw [hspread, List.mem_cons, List.mem_append, List.mem_cons, ih]
      simp [hac, had, hads]

/-- The text up to a character below 128. -/
theorem breakOn_spread {a : Char} (ha : a.toNat < 0x80) (cs : List Char) :
    breakOn [a] (spread cs) = (breakOn [a] cs).map fun (x, y) => (spread x, spread y) := by
  cases hbreak : breakOn [a] cs with
  | none =>
    have hmem : a ∉ cs := fun hmem => by
      obtain ⟨u, v, rfl⟩ := List.append_of_mem hmem
      exact breakOn_ne_none (List.cons_ne_nil a []) u v (by rw [List.append_assoc]; exact hbreak)
    exact breakOn_eq_none (mt (mem_spread_iff ha).1 hmem)
  | some r =>
    obtain ⟨before, behind⟩ := r
    have hbefore := mt (mem_spread_iff ha).1 (not_mem_of_breakOn hbreak)
    have hcs : cs = before ++ a :: behind := by rw [eq_of_breakOn hbreak, List.append_assoc, List.singleton_append]
    rw [hcs, spread_append, spread_cons_of_lt ha, breakOn_singleton hbefore]
    rfl

end Text

namespace Expr

open Text

/-! ## Tokens and their bytes -/

/-- The token with what it says as bytes. -/
def Lexeme.bytewise : Lexeme → Lexeme
  | .var name => .var (String.ofList (spread name.toList))
  | .string text => .string (String.ofList (spread text.toList))
  | l => l

def Token.bytewise (t : Token) : Token := { t with lexeme := t.lexeme.bytewise }

section Scanners

variable {c : Char} {cs : List Char}

theorem narrow_isDigit : Narrow Number.isDigit := fun _ hc => (isSpace_digit hc).1

theorem narrow_isWordChar : Narrow isWordChar := fun c hc => by
  rcases Bool.or_eq_true_iff.1 hc with hc | hc
  · exact (isWordStart_spec hc).2.1.1
  · exact narrow_isDigit c hc

theorem narrow_gluesToNumber : Narrow gluesToNumber := fun c hc => by
  rcases Bool.or_eq_true_iff.1 hc with hc | hc
  · exact narrow_isWordChar c hc
  · rw [eq_of_beq hc]
    decide

theorem narrow_isSpace : Narrow isSpace := fun c hc => by
  simp only [isSpace, Bool.or_eq_true, Bool.and_eq_true, decide_eq_true_eq, beq_iff_eq] at hc
  rcases hc with rfl | hc
  · decide
  · omega

theorem isBlank_bytes_eq_false (hc : 0xC0 ≤ c.toNat) : Coding.bytes.isBlank c = false := by
  have next : c ≠ '\u0085' := by
    rintro rfl
    exact absurd hc (by decide)
  have hard : c ≠ '\u00a0' := by
    rintro rfl
    exact absurd hc (by decide)
  rw [Coding.isBlank, beq_false_of_ne next, beq_false_of_ne hard, narrow_isSpace.eq_false (by omega)]
  rfl

theorem parenFollows_spread (cs : List Char) : parenFollows (spread cs) .bytes = parenFollows cs := by
  have hdrop : (spread cs).dropWhile Coding.bytes.isBlank = spread (cs.dropWhile isSpace) :=
    dropWhile_spread_of narrow_isSpace (fun _ hc => Coding.isBlank_of_ascii _ hc) (fun _ hc => isBlank_bytes_eq_false hc) cs
  rw [Bool.eq_iff_iff, parenFollows_iff, parenFollows_iff, ParenNext, ParenNext, hdrop, List.head?_eq_some_iff,
    List.head?_eq_some_iff]
  constructor
  · rintro ⟨r, hr⟩
    obtain ⟨r', hr', -⟩ := (spread_eq_cons_iff (by decide)).1 hr
    exact ⟨r', hr'⟩
  · rintro ⟨r, hr⟩
    exact ⟨_, (spread_eq_cons_iff (by decide)).2 ⟨r, hr, rfl⟩⟩

theorem splitSign_spread (cs : List Char) : splitSign (spread cs) = ((splitSign cs).1, spread (splitSign cs).2) := by
  cases cs with
  | nil => rfl
  | cons c cs =>
    by_cases hplus : c = '+'
    · subst hplus
      rw [spread_cons_of_lt (by decide)]
      rfl
    by_cases hminus : c = '-'
    · subst hminus
      rw [spread_cons_of_lt (by decide)]
      rfl
    have plus : ∀ r, spread (c :: cs) ≠ '+' :: r := fun r hr => by
      obtain ⟨_, hcs, -⟩ := (spread_eq_cons_iff (by decide)).1 hr
      exact hplus (List.cons.inj hcs).1
    have minus : ∀ r, spread (c :: cs) ≠ '-' :: r := fun r hr => by
      obtain ⟨_, hcs, -⟩ := (spread_eq_cons_iff (by decide)).1 hr
      exact hminus (List.cons.inj hcs).1
    rw [splitSign.eq_3 _ plus minus, splitSign.eq_3 _ (by simpa using hplus) (by simpa using hminus)]

theorem splitFraction_spread (cs : List Char) :
    splitFraction (spread cs) = ((splitFraction cs).1, spread (splitFraction cs).2) := by
  cases cs with
  | nil => rfl
  | cons c cs =>
    by_cases hpoint : c = '.'
    · subst hpoint
      rw [spread_cons_of_lt (by decide), splitFraction, splitFraction, takeWhile_spread narrow_isDigit,
        dropWhile_spread narrow_isDigit]
    have point : ∀ r, spread (c :: cs) ≠ '.' :: r := fun r hr => by
      obtain ⟨_, hcs, -⟩ := (spread_eq_cons_iff (by decide)).1 hr
      exact hpoint (List.cons.inj hcs).1
    rw [splitFraction.eq_2 _ point, splitFraction.eq_2 _ (by simpa using hpoint)]

theorem scanExponent_spread (cs : List Char) :
    scanExponent (spread cs) = ((scanExponent cs).1, spread (scanExponent cs).2) := by
  cases cs with
  | nil => rfl
  | cons c cs =>
    rcases Nat.lt_or_ge c.toNat 0x80 with hc | hc
    · rw [spread_cons_of_lt hc, scanExponent_cons, scanExponent_cons]
      simp only [splitSign_spread, takeWhile_spread narrow_isDigit, dropWhile_spread narrow_isDigit]
      split
      · split
        · rw [spread_cons_of_lt hc]
        · rfl
      · rw [spread_cons_of_lt hc]
    · have notMark : ∀ e : Char, 0x80 ≤ e.toNat → ¬ (e == 'e' || e == 'E') = true := by
        rintro e he hmark
        rcases Bool.or_eq_true_iff.1 hmark with h | h
        · rw [eq_of_beq h] at he
          exact absurd he (by decide)
        · rw [eq_of_beq h] at he
          exact absurd he (by decide)
      obtain ⟨d, ds, hspread, hd, -⟩ := spread_cons_of_le hc
      rw [scanExponent_cons, if_neg (notMark c hc), hspread, scanExponent_cons, if_neg (notMark d (by omega))]

theorem spanNumber_spread (cs : List Char) : spanNumber (spread cs) = ((spanNumber cs).1, spread (spanNumber cs).2) := by
  simp only [spanNumber_eq, takeWhile_spread narrow_isDigit, dropWhile_spread narrow_isDigit, splitFraction_spread,
    scanExponent_spread]

/-- What a scanner takes, as bytes. -/
def bytewiseStep (r : Except Cause (Lexeme × List Char)) : Except Cause (Lexeme × List Char) :=
  r.map fun (l, rest) => (l.bytewise, spread rest)

theorem scanNumber_spread (cs : List Char) : scanNumber (spread cs) = bytewiseStep (scanNumber cs) := by
  unfold scanNumber
  simp only [spanNumber_spread, takeWhile_spread narrow_gluesToNumber]
  split
  · split <;> rfl
  · rfl

theorem scanVariable_spread (pos : Nat) (cs : List Char) :
    scanVariable pos (spread cs) = bytewiseStep (scanVariable pos cs) := by
  by_cases hbrace : ∃ r, cs = '{' :: r
  · obtain ⟨r, rfl⟩ := hbrace
    rw [spread_cons_of_lt (by decide), scanVariable, scanVariable, breakOn_spread (by decide)]
    cases breakOn ['}'] r with
    | none => rfl
    | some p =>
      obtain ⟨name, rest⟩ := p
      cases name with
      | nil => rfl
      | cons d name =>
        obtain ⟨e, es, hspread⟩ := List.exists_cons_of_ne_nil (spread_ne_nil (List.cons_ne_nil d name))
        simp [bytewiseStep, Except.map, Lexeme.bytewise, hspread]
  · have brace : ∀ r, spread cs ≠ '{' :: r := fun r hr => by
      obtain ⟨r', hcs, -⟩ := (spread_eq_cons_iff (by decide)).1 hr
      exact hbrace ⟨r', hcs⟩
    have hname : spread (cs.takeWhile isWordChar) = cs.takeWhile isWordChar :=
      spread_of_lt fun d hd => narrow_isWordChar d (List.mem_takeWhile_imp hd)
    rw [scanVariable.eq_2 _ _ brace, scanVariable.eq_2 _ _ fun r hr => hbrace ⟨r, hr⟩,
      takeWhile_spread narrow_isWordChar, dropWhile_spread narrow_isWordChar]
    split
    · rfl
    · simp [bytewiseStep, Except.map, Lexeme.bytewise, hname]

/-- Bytes of a wide character stand for themselves between quotes. -/
theorem stringBody_wide {quote : Char} (hq : quote.toNat < 0x80) (x : List Char) : ∀ {ds : List Char},
    (∀ d ∈ ds, 0x80 ≤ d.toNat) → stringBody quote (ds ++ x) = (stringBody quote x).map fun (b, r) => (ds ++ b, r)
  | [], _ => by simp
  | d :: ds, h => by
    obtain ⟨hd, hds⟩ := List.forall_mem_cons.1 h
    have hback : ∀ e r, d = '\\' → ds ++ x = e :: r → False := by
      rintro e r rfl -
      exact absurd hd (by decide)
    have hne : ¬ (d == quote) = true := by
      rw [beq_iff_eq]
      rintro rfl
      omega
    rw [List.cons_append, stringBody.eq_3 _ _ _ hback, if_neg hne, stringBody_wide hq x hds]
    cases stringBody quote x <;> rfl

theorem stringBody_spread {quote : Char} (hq : quote.toNat < 0x80) (cs : List Char) :
    stringBody quote (spread cs) = (stringBody quote cs).map fun (b, r) => (spread b, spread r) := by
  -- Where the text has no character behind a backslash, the bytes have none.
  have plain : ∀ {c : Char} {x : List Char}, (∀ e r, c = '\\' → x = e :: r → False) →
      ∀ e r, c = '\\' → spread x = e :: r → False := by
    intro c x hx e r hc hr
    cases x with
    | nil => cases hr
    | cons e' r' => exact hx e' r' hc rfl
  fun_induction stringBody quote cs with
  | case1 => rfl
  | case2 c x ih =>
    rw [spread_cons_of_lt (by decide)]
    rcases Nat.lt_or_ge c.toNat 0x80 with hc | hc
    · rw [spread_cons_of_lt hc, stringBody, ih]
      cases stringBody quote x with
      | none => rfl
      | some p => simp [spread_cons_of_lt hc]
    · obtain ⟨d, ds, hspread, -, hds⟩ := spread_cons_of_le hc
      rw [hspread, stringBody, stringBody_wide hq _ hds, ih]
      cases stringBody quote x with
      | none => rfl
      | some p => simp [hspread]
  | case3 c x hx hc =>
    obtain rfl := eq_of_beq hc
    rw [spread_cons_of_lt hq, stringBody.eq_3 _ _ _ (plain hx), if_pos hc]
    rfl
  | case4 c x hx hne ih =>
    rcases Nat.lt_or_ge c.toNat 0x80 with hc | hc
    · rw [spread_cons_of_lt hc, stringBody.eq_3 _ _ _ (plain hx), if_neg hne, ih]
      cases stringBody quote x with
      | none => rfl
      | some p => simp [spread_cons_of_lt hc]
    · obtain ⟨d, ds, hspread, hd, hds⟩ := spread_cons_of_le hc
      rw [hspread, ← List.cons_append, stringBody_wide hq _ (List.forall_mem_cons.2 ⟨by omega, hds⟩), ih]
      cases stringBody quote x with
      | none => rfl
      | some p => simp [hspread]

theorem isPointed_spread (c : Char) (cs : List Char) : isPointed c (spread cs) = isPointed c cs := by
  cases cs with
  | nil => rfl
  | cons d cs =>
    rcases Nat.lt_or_ge d.toNat 0x80 with hd | hd
    · rw [spread_cons_of_lt hd]
      rfl
    · obtain ⟨e, es, hspread, he, -⟩ := spread_cons_of_le hd
      rw [hspread, isPointed, isPointed, narrow_isDigit.eq_false hd, narrow_isDigit.eq_false (by omega)]

theorem scanMark_spread (pos : Nat) (c : Char) (cs : List Char) :
    scanMark pos c (spread cs) = bytewiseStep (scanMark pos c cs) := by
  by_cases hc : c = '/'
  · subst hc
    by_cases hs : ∃ r, cs = '/' :: r
    · obtain ⟨r, rfl⟩ := hs
      rw [spread_cons_of_lt (by decide)]
      rfl
    have whole : ∀ r, spread cs ≠ '/' :: r := fun r hr => by
      obtain ⟨r', hcs, -⟩ := (spread_eq_cons_iff (by decide)).1 hr
      exact hs ⟨r', hcs⟩
    rw [scanMark_slash whole, scanMark_slash fun r hr => hs ⟨r, hr⟩]
    rfl
  · unfold scanMark
    split
    all_goals first | rfl | simp_all [bytewiseStep, Except.map]

/-- A token that starts with a character below 128 is read alike. -/
theorem scanOne_spread (hc : c.toNat < 0x80) (pos : Nat) (cs : List Char) :
    scanOne pos c (spread cs) .bytes = bytewiseStep (scanOne pos c cs) := by
  rw [scanOne_eq, scanOne_eq, isPointed_spread, ← spread_cons_of_lt hc, scanNumber_spread, scanVariable_spread,
    takeWhile_spread narrow_isWordChar, dropWhile_spread narrow_isWordChar, parenFollows_spread, scanMark_spread,
    stringBody_spread hc]
  split
  · rfl
  split
  · rfl
  split
  · cases stringBody c cs with
    | none => rfl
    | some p => simp [bytewiseStep, Except.map, Lexeme.bytewise]
  split
  · split
    · split <;> rfl
    · rfl
  · rfl

theorem toOption_map {ε α β : Type} (r : Except ε α) (f : α → β) : (r.map f).toOption = r.toOption.map f := by
  cases r <;> rfl

/-- Scanning goes the same way by bytes and by characters, and fails in both if a token starts with another character. -/
theorem scanAll_spread {fuel : Nat} : ∀ {fuel' pos : Nat} {cs : List Char}, cs.length ≤ fuel →
    (spread cs).length ≤ fuel' → (scanAll fuel' pos (spread cs) .bytes).toOption =
      (scanAll fuel pos cs).toOption.map (List.map Token.bytewise) := by
  induction fuel with
  | zero =>
    intro fuel' pos cs hf hf'
    obtain rfl := List.length_eq_zero_iff.1 (Nat.le_zero.1 hf)
    cases fuel' <;> rfl
  | succ fuel ih =>
    intro fuel' pos cs hf hf'
    cases cs with
    | nil => cases fuel' <;> rfl
    | cons c cs =>
      have hf : cs.length ≤ fuel := Nat.le_of_succ_le_succ hf
      rcases Nat.lt_or_ge c.toNat 0x80 with hc | hc
      · rw [spread_cons_of_lt hc] at hf' ⊢
        obtain ⟨fuel', rfl⟩ : ∃ f, fuel' = f + 1 := ⟨fuel' - 1, by simp at hf'; omega⟩
        have hf' : (spread cs).length ≤ fuel' := Nat.le_of_succ_le_succ hf'
        have hblank : Coding.bytes.isBlank c = Coding.text.isBlank c := Coding.isBlank_of_ascii _ hc
        rw [scanAll, scanAll, hblank, scanOne_spread hc]
        split
        · exact ih hf hf'
        cases hone : scanOne pos c cs with
        | error e => rfl
        | ok r =>
          obtain ⟨l, rest⟩ := r
          have hlen := length_of_scanOne hone
          have hlen' : (spread rest).length ≤ (spread cs).length :=
            length_of_scanOne (k := .bytes) (by rw [scanOne_spread hc, hone]; rfl)
          have hnext : Coding.bytes.length (c :: spread cs) - Coding.bytes.length (spread rest) =
              Coding.text.length (c :: cs) - Coding.text.length rest := by
            rw [← spread_cons_of_lt hc]
            exact congrArg₂ (· - ·) (length_spread _) (length_spread _)
          change (Except.map _ (scanAll fuel' (pos + (Coding.bytes.length _ - Coding.bytes.length _)) _ .bytes)).toOption =
            (Except.map _ (scanAll fuel (pos + (Coding.text.length _ - Coding.text.length _)) _)).toOption.map _
          rw [toOption_map, toOption_map, hnext, ih (hlen.trans hf) (hlen'.trans hf'), Option.map_map, Option.map_map]
          rfl
      · obtain ⟨d, ds, hspread, hd, -⟩ := spread_cons_of_le hc
        rw [hspread] at hf' ⊢
        obtain ⟨fuel', rfl⟩ : ∃ f, fuel' = f + 1 := ⟨fuel' - 1, by simp at hf'; omega⟩
        have hblank : Coding.text.isBlank c = false := narrow_isSpace.eq_false hc
        rw [scanAll, scanAll, hblank, isBlank_bytes_eq_false hd, scanOne_outside (.inr (by omega)) _ _ .bytes,
          scanOne_outside (.inr (by omega))]
        rfl

end Scanners

/-- The tokens of the bytes of a text are the bytes of its tokens. -/
theorem tokenizeBytes_toBytes (s : String) (toks : List Token) :
    tokenizeBytes (toBytes s.toList) = .ok toks ↔ ∃ ts, tokenize s = .ok ts ∧ toks = ts.map Token.bytewise := by
  have toOption : ∀ {r : Except Cause (List Token)} {ts : List Token}, r = .ok ts ↔ r.toOption = some ts := by
    intro r ts
    cases r <;> simp [Except.toOption]
  rw [toOption, tokenizeBytes, tokenizeChars, ← spread, scanAll_spread (Nat.le_refl _) (Nat.le_refl _),
    Option.map_eq_some_iff]
  simp only [tokenize, tokenizeChars, toOption, eq_comm]

/-- Bytes that are accepted are made of the spans of their tokens, in order and each written as its token says, and of
blanks. The tokens start further and further on, and a word such as `lt` is an operator exactly if no parenthesis comes
next. A text is accepted if its bytes are, with the same tokens. -/
theorem tokenize_tiles :
    (∀ bs toks, tokenizeBytes bs = .ok toks → Tiles .bytes 0 (spell bs) toks ∧ (toks.Pairwise fun t u => t.pos < u.pos) ∧
      ∀ t ∈ toks, ∃ before span rest, bs = before ++ span ++ rest ∧ t.pos = before.length ∧
        Written .bytes t.lexeme (spell span) (spell rest) ∧
        ∀ o, Op.ofWord? (String.ofList (spell span)) = some o →
          (t.lexeme = .op o ↔ ¬ ParenNext .bytes (spell rest))) ∧
    ∀ s toks, tokenizeBytes (toBytes s.toList) = .ok toks ↔
      ∃ ts, tokenize s = .ok ts ∧ toks = ts.map Token.bytewise := by
  refine ⟨fun bs toks h => ?_, tokenizeBytes_toBytes⟩
  obtain ⟨tiles, hpos, hspans⟩ := tiles_of_tokenizeChars h
  refine ⟨tiles, hpos, fun t ht => ?_⟩
  obtain ⟨before, span, rest, hbs, hbefore, hwritten⟩ := hspans t ht
  obtain ⟨front, rest, rfl, hfront, rfl⟩ := List.map_eq_append_iff.1 hbs
  obtain ⟨before, span, rfl, rfl, rfl⟩ := List.map_eq_append_iff.1 hfront
  exact ⟨before, span, rest, rfl, hbefore.trans (List.length_map _), hwritten⟩

/-- Of two words `lt`, the one in front of a parenthesis is the name of a function. Bytes that begin no character may be
blanks. -/
theorem tokenize_tiles_comparison :
    Tiles .bytes 0 (spell (toBytes "'it\\'s' lt lt ($b)".toList)) [⟨.string "it's", 0⟩, ⟨.op .lt, 8⟩, ⟨.symbol "lt", 11⟩,
        ⟨.lparen, 14⟩, ⟨.var "b", 15⟩, ⟨.rparen, 17⟩] ∧
      Tiles .bytes 0 (spell [0x24, 0x61, 0xA0, 0x2B, 0x85, 0x24, 0x62])
        [⟨.var "a", 0⟩, ⟨.op .add, 3⟩, ⟨.var "b", 5⟩] :=
  ⟨(tokenize_tiles.1 _ _ rfl).1, (tokenize_tiles.1 _ _ rfl).1⟩

end Expr

end DiagramMarkup
