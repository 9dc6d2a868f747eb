import DiagramMarkup.Proofs.Regions

/-!
# Tokens and what they stand for

The tokens of an expression keep what is written: the text is made of the tokens as they are written and of blanks
between them.

1. `Written l span rest`: where the rest of the text follows, the token is written as the span. A token reaches as far
   as it can, and a word such as `lt` is an operator unless a parenthesis comes next. The scanner reads exactly that
   (`written_of_scanOne`, `scanOne_of_written`).
2. The scanner goes on behind a token, so the spans and the blanks tile the text, and each token knows the byte at which
   its span starts. Exactly the texts that are tiled are accepted (`tokenizeChars_eq_ok_iff`).
-/

namespace DiagramMarkup.Expr

/-! ## How tokens are written -/

/-- A point and digits. -/
def Fraction (cs : List Char) : Prop := ∃ ds, cs = '.' :: ds ∧ ∀ d ∈ ds, Number.isDigit d

/-- A mark, a sign or none, and digits. -/
def Exponent (cs : List Char) : Prop :=
  ∃ e sign ds, cs = e :: sign ++ ds ∧ (e = 'e' ∨ e = 'E') ∧ (sign = [] ∨ sign = ['+'] ∨ sign = ['-']) ∧ ds ≠ [] ∧
    ∀ d ∈ ds, Number.isDigit d

/-- Digits with a fraction or none and an exponent or none; a digit stands at the start or behind the point there. -/
inductive Numeral : List Char → Prop where
  | mk {whole fraction exponent : List Char} (hwhole : ∀ d ∈ whole, Number.isDigit d)
    (hfraction : fraction = [] ∨ Fraction fraction) (hexponent : exponent = [] ∨ Exponent exponent)
    (hstart : whole ≠ [] ∨ 1 < fraction.length) : Numeral (whole ++ fraction ++ exponent)

/-- What stands between quotes, and the text that it encodes: a backslash takes the next character as it is. -/
inductive Quoted (quote : Char) : List Char → List Char → Prop where
  | nil : Quoted quote [] []
  | escaped (c : Char) {content text : List Char} (h : Quoted quote content text) :
    Quoted quote ('\\' :: c :: content) (c :: text)
  | plain {c : Char} {content text : List Char} (hc : c ≠ '\\') (hq : c ≠ quote) (h : Quoted quote content text) :
    Quoted quote (c :: content) (c :: text)

/-- The next character that is not blank is an opening parenthesis. -/
def ParenNext (k : Coding) (rest : List Char) : Prop := (rest.dropWhile k.isBlank).head? = some '('

/-- How a token is written where the rest of the text follows it. -/
inductive Written (k : Coding) : Lexeme → List Char → List Char → Prop where
  | number {text rest : List Char} {v : Float} (htext : Numeral text) (hend : Text.Ends gluesToNumber rest)
    (hread : Number.readChars text = .ok v) : Written k (.number (String.ofList text) v) text rest
  | named {name rest : List Char} (hne : name ≠ []) (hname : ∀ c ∈ name, isWordChar c)
    (hend : Text.Ends isWordChar rest) : Written k (.var (String.ofList name)) ('$' :: name) rest
  | braced {name rest : List Char} (hne : name ≠ []) (hclose : '}' ∉ name) :
    Written k (.var (String.ofList name)) ('$' :: '{' :: name ++ ['}']) rest
  | string {quote : Char} {content text rest : List Char} (hquote : quote = '"' ∨ quote = '\'')
    (hcontent : Quoted quote content text) : Written k (.string (String.ofList text)) (quote :: content ++ [quote]) rest
  | symbol {c : Char} {name rest : List Char} (hc : isWordStart c) (hname : ∀ d ∈ name, isWordChar d)
    (hend : Text.Ends isWordChar rest) (hfunction : Op.ofWord? (String.ofList (c :: name)) = none ∨ ParenNext k rest) :
    Written k (.symbol (String.ofList (c :: name))) (c :: name) rest
  | word {o : Op} {rest : List Char} (ho : Op.ofWord? o.text = some o) (hend : Text.Ends isWordChar rest)
    (hnext : ¬ ParenNext k rest) : Written k (.op o) o.text.toList rest
  | sign {o : Op} {rest : List Char} (ho : Op.ofWord? o.text = none) (hslash : o = .div → rest.head? ≠ some '/') :
    Written k (.op o) o.text.toList rest
  | lparen {rest : List Char} : Written k .lparen ['('] rest
  | rparen {rest : List Char} : Written k .rparen [')'] rest
  | comma {rest : List Char} : Written k .comma [','] rest

theorem Coding.isBlank_of_ascii (k : Coding) {c : Char} (hc : c.toNat < 0x80) : k.isBlank c = isSpace c := by
  cases k with
  | text => rfl
  | bytes =>
    have next : c ≠ '\u0085' := by
      rintro rfl
      exact absurd hc (by decide)
    have hard : c ≠ '\u00a0' := by
      rintro rfl
      exact absurd hc (by decide)
    rw [isBlank, beq_false_of_ne next, beq_false_of_ne hard, Bool.or_false, Bool.or_false]

/-- The start of a token is not blank. -/
theorem Coding.isBlank_eq_false (k : Coding) {c : Char} (hc : c.toNat < 0x80 ∧ isSpace c = false) :
    k.isBlank c = false := (k.isBlank_of_ascii hc.1).trans hc.2

/-! ## Numbers -/

section Numbers

variable {x y : List Char}

theorem splitSign_spec (x : List Char) :
    x = (splitSign x).1 ++ (splitSign x).2 ∧
      ((splitSign x).1 = [] ∨ (splitSign x).1 = ['+'] ∨ (splitSign x).1 = ['-']) := by
  unfold splitSign
  split <;> simp

/-- What is read as an exponent is one, unless nothing is. -/
theorem scanExponent_spec (x : List Char) :
    x = (scanExponent x).1 ++ (scanExponent x).2 ∧ ((scanExponent x).1 = [] ∨ Exponent (scanExponent x).1) := by
  cases x with
  | nil => exact ⟨rfl, .inl rfl⟩
  | cons e x =>
    obtain ⟨hsplit, hsign⟩ := splitSign_spec x
    rw [scanExponent_cons]
    split
    · next he =>
      split
      · exact ⟨rfl, .inl rfl⟩
      · next hds =>
        refine ⟨?_, .inr ⟨e, _, _, rfl, by simpa using he, hsign, by simpa using hds,
          fun d hd => List.mem_takeWhile_imp hd⟩⟩
        rw [List.append_assoc, List.cons_append, List.takeWhile_append_dropWhile, ← hsplit]
    · exact ⟨rfl, .inl rfl⟩

theorem splitFraction_spec (x : List Char) :
    x = (splitFraction x).1 ++ (splitFraction x).2 ∧ ((splitFraction x).1 = [] ∨ Fraction (splitFraction x).1) := by
  unfold splitFraction
  split
  · next r =>
    refine ⟨?_, .inr ⟨_, rfl, fun d hd => List.mem_takeWhile_imp hd⟩⟩
    rw [List.cons_append, List.takeWhile_append_dropWhile]
  · exact ⟨rfl, .inl rfl⟩

/-- What is read as a number is one. -/
theorem spanNumber_spec {c : Char} {cs : List Char} (h : (Number.isDigit c || isPointed c cs) = true) :
    c :: cs = (spanNumber (c :: cs)).1 ++ (spanNumber (c :: cs)).2 ∧ Numeral (spanNumber (c :: cs)).1 := by
  obtain ⟨hfraction, hf⟩ := splitFraction_spec ((c :: cs).dropWhile Number.isDigit)
  obtain ⟨hexponent, he⟩ := scanExponent_spec (splitFraction ((c :: cs).dropWhile Number.isDigit)).2
  rw [spanNumber_eq]
  refine ⟨?_, .mk (fun d hd => List.mem_takeWhile_imp hd) hf he ?_⟩
  · rw [List.append_assoc, ← hexponent, List.append_assoc, ← hfraction, List.takeWhile_append_dropWhile]
  · by_cases hc : Number.isDigit c
    · exact .inl (by simp [hc])
    · have hpoint : isPointed c cs := by simpa [hc] using h
      cases cs with
      | nil => cases hpoint
      | cons d cs =>
        obtain ⟨rfl, hd⟩ : c = '.' ∧ Number.isDigit d := by simpa [isPointed] using hpoint
        refine .inr ?_
        rw [List.dropWhile_cons_of_neg hc, splitFraction, List.takeWhile_cons_of_pos hd]
        simp

theorem splitSign_of_digits {sign ds : List Char} (hsign : sign = [] ∨ sign = ['+'] ∨ sign = ['-']) (hds : ds ≠ [])
    (hdigits : ∀ d ∈ ds, Number.isDigit d) : splitSign (sign ++ ds ++ x) = (sign, ds ++ x) := by
  obtain ⟨d, ds, rfl⟩ := List.exists_cons_of_ne_nil hds
  rcases hsign with rfl | rfl | rfl
  · have hd := hdigits d List.mem_cons_self
    have plus : d ≠ '+' := by
      rintro rfl
      cases hd
    have minus : d ≠ '-' := by
      rintro rfl
      cases hd
    simp [splitSign, plus, minus]
  · rfl
  · rfl

/-- Nothing that follows a number goes on with it. -/
theorem not_glues {d : Char} (hd : gluesToNumber d = false) :
    Number.isDigit d = false ∧ d ≠ '.' ∧ d ≠ 'e' ∧ d ≠ 'E' := by
  refine ⟨?_, ?_, ?_, ?_⟩
  · simp only [gluesToNumber, isWordChar, Bool.or_eq_false_iff] at hd
    exact hd.1.2
  all_goals
    rintro rfl
    cases hd

theorem scanExponent_append_rest {exponent rest : List Char} (he : exponent = [] ∨ Exponent exponent)
    (hend : Text.Ends gluesToNumber rest) : scanExponent (exponent ++ rest) = (exponent, rest) := by
  rcases he with rfl | ⟨e, sign, ds, rfl, he, hsign, hne, hds⟩
  · cases rest with
    | nil => rfl
    | cons d rest =>
      obtain ⟨-, -, he, hE⟩ := not_glues (hend d rfl)
      rw [List.nil_append, scanExponent_cons, if_neg (by simp [he, hE])]
  · have hdigits : Text.Ends Number.isDigit rest := fun d hd => (not_glues (hend d hd)).1
    rw [List.cons_append, List.cons_append, scanExponent_cons, if_pos (by simpa using he)]
    rw [splitSign_of_digits hsign hne hds, hdigits.takeWhile hds, hdigits.dropWhile hds]
    rw [if_neg (by simpa using hne)]
    rfl

/-- A number is read as it stands. -/
theorem spanNumber_append_rest {text rest : List Char} (h : Numeral text) (hend : Text.Ends gluesToNumber rest) :
    spanNumber (text ++ rest) = (text, rest) := by
  cases h with
  | @mk whole fraction exponent hwhole hfraction hexponent _ =>
    have exponentEnds : Text.Ends (fun c => Number.isDigit c || c == '.') (exponent ++ rest) := by
      rcases hexponent with rfl | ⟨e, sign, ds, rfl, rfl | rfl, -, -, -⟩
      · intro d hd
        obtain ⟨hdigit, hpoint, -, -⟩ := not_glues (hend d hd)
        simp [hdigit, hpoint]
      all_goals
        rintro d ⟨⟩
        rfl
    have digitEnds : Text.Ends Number.isDigit (exponent ++ rest) := fun d hd =>
      (Bool.or_eq_false_iff.1 (exponentEnds d hd)).1
    have fractionRead : splitFraction (fraction ++ (exponent ++ rest)) = (fraction, exponent ++ rest) := by
      rcases hfraction with rfl | ⟨ds, rfl, hds⟩
      · rw [List.nil_append]
        unfold splitFraction
        split
        · next r hr => cases exponentEnds '.' (by rw [hr]; rfl)
        · rfl
      · rw [List.cons_append, splitFraction, digitEnds.takeWhile hds, digitEnds.dropWhile hds]
    have wholeEnds : Text.Ends Number.isDigit (fraction ++ (exponent ++ rest)) := by
      rcases hfraction with rfl | ⟨ds, rfl, -⟩
      · exact digitEnds
      · rintro d ⟨⟩
        rfl
    have regroup : whole ++ fraction ++ exponent ++ rest = whole ++ (fraction ++ (exponent ++ rest)) := by
      simp only [List.append_assoc]
    rw [regroup, spanNumber_eq, wholeEnds.takeWhile hwhole, wholeEnds.dropWhile hwhole, fractionRead,
      scanExponent_append_rest hexponent hend]

/-- The number token that is read is the one that is written. -/
theorem scanNumber_eq_ok_iff {c : Char} {cs : List Char} (h : (Number.isDigit c || isPointed c cs) = true) {l : Lexeme}
    {rest : List Char} : scanNumber (c :: cs) = .ok (l, rest) ↔ ∃ text v, c :: cs = text ++ rest ∧
      l = .number (String.ofList text) v ∧ Numeral text ∧ Text.Ends gluesToNumber rest ∧
        Number.readChars text = .ok v := by
  have glued : ∀ rest : List Char, (rest.takeWhile gluesToNumber).isEmpty ↔ Text.Ends gluesToNumber rest := by
    intro rest
    cases rest with
    | nil => exact ⟨fun _ => nofun, fun _ => rfl⟩
    | cons d rest =>
      cases hd : gluesToNumber d <;> simp [Text.Ends, hd]
  unfold scanNumber
  constructor
  · intro hl
    obtain ⟨hsplit, hnumeral⟩ := spanNumber_spec h
    simp only at hl
    split at hl
    · next hend =>
      split at hl
      · next v hv =>
        cases hl
        exact ⟨_, v, hsplit, rfl, hnumeral, (glued _).1 hend, hv⟩
      · cases hl
    · cases hl
  · rintro ⟨text, v, htext, rfl, hnumeral, hend, hv⟩
    rw [htext, spanNumber_append_rest hnumeral hend]
    simp only [if_pos ((glued rest).2 hend), hv]

end Numbers

/-! ## Variables, strings and words -/

section Spans

variable {k : Coding} {cs rest : List Char} {l : Lexeme}

/-- The word behind a dollar sign is a variable, whatever character of a word it starts with. -/
theorem scanVariable_word {name : List Char} (pos : Nat) (hne : name ≠ []) (hname : ∀ c ∈ name, isWordChar c)
    (hend : Text.Ends isWordChar rest) : scanVariable pos (name ++ rest) = .ok (.var (String.ofList name), rest) := by
  obtain ⟨c, name, rfl⟩ := List.exists_cons_of_ne_nil hne
  have hbrace : ∀ r, c :: (name ++ rest) ≠ '{' :: r := by
    rintro r ⟨⟩
    cases hname '{' List.mem_cons_self
  rw [List.cons_append, scanVariable.eq_2 _ _ hbrace, ← List.cons_append, hend.takeWhile hname, hend.dropWhile hname]
  rfl

theorem scanVariable_braced {name : List Char} (pos : Nat) (hne : name ≠ []) (hclose : '}' ∉ name) :
    scanVariable pos ('{' :: name ++ '}' :: rest) = .ok (.var (String.ofList name), rest) := by
  obtain ⟨c, name, rfl⟩ := List.exists_cons_of_ne_nil hne
  rw [List.cons_append, scanVariable, Text.breakOn_singleton hclose]

theorem written_of_scanVariable {pos : Nat} (h : scanVariable pos cs = .ok (l, rest)) :
    ∃ span, '$' :: cs = span ++ rest ∧ Written k l span rest := by
  unfold scanVariable at h
  split at h
  · next cs =>
    split at h
    · cases h
    · cases h
    · next name rest' hname hbreak =>
      cases h
      refine ⟨_, ?_, .braced (fun hnil => hname (hnil ▸ rfl)) (Text.not_mem_of_breakOn hbreak)⟩
      rw [Text.eq_of_breakOn hbreak]
      simp
  · simp only at h
    split at h
    · cases h
    · next hne =>
      cases h
      refine ⟨_, ?_, .named (by simpa using hne) (fun c hc => List.mem_takeWhile_imp hc) (Text.ends_dropWhile _ _)⟩
      rw [List.cons_append, List.takeWhile_append_dropWhile]

/-- A string ends at its first quote that no backslash takes. -/
theorem stringBody_eq_some_iff {quote : Char} (hq : quote ≠ '\\') {text : List Char} :
    stringBody quote cs = some (text, rest) ↔ ∃ content, cs = content ++ quote :: rest ∧ Quoted quote content text := by
  constructor
  · intro h
    fun_induction stringBody quote cs generalizing text with
    | case1 => cases h
    | case2 c x ih =>
      obtain ⟨⟨b, r⟩, hb, he⟩ := Option.map_eq_some_iff.1 h
      cases he
      obtain ⟨content, rfl, hcontent⟩ := ih hb
      exact ⟨'\\' :: c :: content, rfl, .escaped c hcontent⟩
    | case3 c x _ hc =>
      cases h
      obtain rfl := eq_of_beq hc
      exact ⟨[], rfl, .nil⟩
    | case4 c x hx hc ih =>
      obtain ⟨⟨b, r⟩, hb, he⟩ := Option.map_eq_some_iff.1 h
      cases he
      obtain ⟨content, rfl, hcontent⟩ := ih hb
      refine ⟨c :: content, rfl, .plain (fun hback => ?_) (by simpa using hc) hcontent⟩
      cases content with
      | nil => exact hx _ _ hback rfl
      | cons d content => exact hx _ _ hback rfl
  · rintro ⟨content, rfl, h⟩
    induction h with
    | nil =>
      have hback : ∀ d r, quote = '\\' → rest = d :: r → False := fun _ _ he => absurd he hq
      rw [List.nil_append, stringBody.eq_3 _ _ _ hback, if_pos (beq_self_eq_true _)]
    | escaped c _ ih =>
      rw [List.cons_append, List.cons_append, stringBody, ih]
      rfl
    | @plain c content text hc hne _ ih =>
      have hback : ∀ d r, c = '\\' → content ++ quote :: rest = d :: r → False := fun _ _ he => absurd he hc
      rw [List.cons_append, stringBody.eq_3 _ _ _ hback, if_neg (by simpa using hne), ih]
      rfl

theorem text_of_ofWord? {w : String} {o : Op} (h : Op.ofWord? w = some o) : o.text = w := by
  unfold Op.ofWord? at h
  split at h <;> cases h <;> rfl

/-- The words among the operators are words. -/
theorem exists_cons_of_ofWord? {o : Op} (ho : Op.ofWord? o.text = some o) :
    ∃ c name, o.text.toList = c :: name ∧ isWordStart c ∧ ∀ d ∈ name, isWordChar d := by
  have hstart : o.text.toList.head?.any isWordStart ∧ o.text.toList.tail.all isWordChar := by
    cases o <;> first | exact ⟨rfl, rfl⟩ | cases ho
  cases htext : o.text.toList with
  | nil =>
    rw [htext] at hstart
    cases hstart.1
  | cons c name =>
    rw [htext] at hstart
    exact ⟨c, name, rfl, hstart.1, List.all_eq_true.1 hstart.2⟩

theorem parenFollows_iff : parenFollows rest k ↔ ParenNext k rest := by
  unfold parenFollows ParenNext
  cases rest.dropWhile k.isBlank with
  | nil => simp
  | cons c r =>
    by_cases hc : c = '('
    · subst hc
      simp
    · simp [hc]

theorem written_of_scanMark {pos : Nat} {c : Char} (h : scanMark pos c cs = .ok (l, rest)) :
    ∃ span, c :: cs = span ++ rest ∧ Written k l span rest := by
  unfold scanMark at h
  split at h
  · cases h
    exact ⟨['('], rfl, .lparen⟩
  · cases h
    exact ⟨[')'], rfl, .rparen⟩
  · cases h
    exact ⟨[','], rfl, .comma⟩
  · cases h
    exact ⟨_, rfl, .sign (o := .floorDiv) rfl nofun⟩
  · cases h
    exact ⟨_, rfl, .sign (o := .add) rfl nofun⟩
  · cases h
    exact ⟨_, rfl, .sign (o := .sub) rfl nofun⟩
  · cases h
    exact ⟨_, rfl, .sign (o := .mul) rfl nofun⟩
  · next hslash =>
    cases h
    refine ⟨_, rfl, .sign (o := .div) rfl fun _ hnext => ?_⟩
    obtain ⟨r, hr⟩ := List.head?_eq_some_iff.1 hnext
    exact hslash r hr
  · cases h
    exact ⟨_, rfl, .sign (o := .mod) rfl nofun⟩
  · cases h

/-- A word among the operators is the name of a function in front of a parenthesis. -/
theorem written_word {c : Char} {name : List Char} (hc : isWordStart c) (hname : ∀ d ∈ name, isWordChar d)
    (hend : Text.Ends isWordChar rest) {o : Op} (ho : Op.ofWord? (String.ofList (c :: name)) = some o) :
    Written k (if parenFollows rest k then .symbol (String.ofList (c :: name)) else .op o) (c :: name) rest := by
  split
  · next hparen => exact .symbol hc hname hend (.inr (parenFollows_iff.1 hparen))
  · next hparen =>
    have htext : o.text = String.ofList (c :: name) := text_of_ofWord? ho
    have hword : c :: name = o.text.toList := by rw [htext, String.toList_ofList]
    rw [← htext] at ho
    exact hword ▸ .word ho hend fun hnext => hparen (parenFollows_iff.2 hnext)

/-- What the scanner reads is a token as it is written. -/
theorem written_of_scanOne {pos : Nat} {c : Char} (h : scanOne pos c cs k = .ok (l, rest)) :
    ∃ span, c :: cs = span ++ rest ∧ Written k l span rest := by
  rw [scanOne_eq] at h
  split at h
  · next hnumber =>
    obtain ⟨text, v, hspan, rfl, htext, hend, hread⟩ := (scanNumber_eq_ok_iff hnumber).1 h
    exact ⟨text, hspan, .number htext hend hread⟩
  split at h
  · next hdollar =>
    obtain rfl := eq_of_beq hdollar
    exact written_of_scanVariable h
  split at h
  · next hquote =>
    have hquote : c = '"' ∨ c = '\'' := by simpa using hquote
    split at h
    · cases h
    · next body rest' hbody =>
      cases h
      have hback : c ≠ '\\' := by
        rintro rfl
        exact absurd hquote (by decide)
      obtain ⟨content, rfl, hcontent⟩ := (stringBody_eq_some_iff hback).1 hbody
      exact ⟨c :: content ++ [c], by simp, .string hquote hcontent⟩
  split at h
  · next hstart =>
    have hc := isWordChar_of_start hstart
    have hspan : c :: cs = c :: cs.takeWhile isWordChar ++ cs.dropWhile isWordChar := by
      rw [List.cons_append, List.takeWhile_append_dropWhile]
    have hname : ∀ d ∈ cs.takeWhile isWordChar, isWordChar d := fun d hd => List.mem_takeWhile_imp hd
    have hend := Text.ends_dropWhile isWordChar cs
    rw [List.takeWhile_cons_of_pos hc, List.dropWhile_cons_of_pos hc] at h
    refine ⟨c :: cs.takeWhile isWordChar, ?_⟩
    split at h
    · next o ho =>
      cases h
      exact ⟨hspan, written_word hstart hname hend ho⟩
    · next hop =>
      cases h
      exact ⟨hspan, .symbol hstart hname hend (.inl hop)⟩
  · exact written_of_scanMark h

/-- The start of a word starts no other token. -/
theorem isWordStart_spec {c : Char} (hc : isWordStart c) :
    Number.isDigit c = false ∧ (c.toNat < 0x80 ∧ isSpace c = false) ∧ c ≠ '.' ∧ c ≠ '$' ∧ c ≠ '"' ∧ c ≠ '\'' := by
  have hcode : c.toNat = 95 ∨ 97 ≤ c.toNat ∧ c.toNat ≤ 122 ∨ 65 ≤ c.toNat ∧ c.toNat ≤ 90 := by
    simp only [isWordStart, Bool.or_eq_true, Bool.and_eq_true, decide_eq_true_eq, beq_iff_eq] at hc
    rcases hc with (rfl | hc) | hc
    · exact .inl rfl
    · exact .inr (.inl hc)
    · exact .inr (.inr hc)
  refine ⟨?_, ?_, ?_, ?_, ?_, ?_⟩
  · simp only [Number.isDigit, Bool.and_eq_false_iff, decide_eq_false_iff_not, Char.le_def, UInt32.le_iff_toNat_le]
    change ¬ 48 ≤ c.toNat ∨ ¬ c.toNat ≤ 57
    omega
  · have hblank : c ≠ ' ' := by
      rintro rfl
      cases hc
    simp only [isSpace, Bool.or_eq_false_iff, Bool.and_eq_false_iff, decide_eq_false_iff_not, beq_eq_false_iff_ne]
    exact ⟨by omega, hblank, by omega⟩
  all_goals
    rintro rfl
    cases hc

theorem isPointed_of_ne {c : Char} (hc : c ≠ '.') (cs : List Char) : isPointed c cs = false := by
  cases cs <;> simp [isPointed, hc]

/-- A character that starts no number, no name and no string is a mark of its own. -/
theorem scanOne_mark {c : Char} (hdigit : Number.isDigit c = false) (hword : isWordStart c = false)
    (hother : c ≠ '.' ∧ c ≠ '$' ∧ c ≠ '"' ∧ c ≠ '\'') (pos : Nat) (cs : List Char) :
    scanOne pos c cs k = scanMark pos c cs := by
  rw [scanOne_eq, isPointed_of_ne hother.1]
  simp [hdigit, hword, hother]

/-- A word is an operator or the name of a function. -/
theorem scanOne_word {c : Char} {name : List Char} (hc : isWordStart c) (hname : ∀ d ∈ name, isWordChar d)
    (hend : Text.Ends isWordChar rest) (pos : Nat) :
    scanOne pos c (name ++ rest) k = match Op.ofWord? (String.ofList (c :: name)) with
      | some o => .ok (if parenFollows rest k then .symbol (String.ofList (c :: name)) else .op o, rest)
      | none => .ok (.symbol (String.ofList (c :: name)), rest) := by
  obtain ⟨hdigit, -, hother⟩ := isWordStart_spec hc
  have hword := forall_isWordChar hc hname
  rw [scanOne_eq, isPointed_of_ne hother.1, ← List.cons_append, hend.takeWhile hword, hend.dropWhile hword,
    if_neg (by simp [hdigit]), if_neg (by simp [hother]), if_neg (by simp [hother])]
  exact if_pos hc

theorem scanOne_string {quote : Char} {content text : List Char} (hquote : quote = '"' ∨ quote = '\'')
    (hcontent : Quoted quote content text) (pos : Nat) :
    scanOne pos quote (content ++ quote :: rest) k = .ok (.string (String.ofList text), rest) := by
  have hback : quote ≠ '\\' := by
    rintro rfl
    exact absurd hquote (by decide)
  have hbody : stringBody quote (content ++ quote :: rest) = some (text, rest) :=
    (stringBody_eq_some_iff hback).2 ⟨content, rfl, hcontent⟩
  have hpoint : quote ≠ '.' := by
    rintro rfl
    exact absurd hquote (by decide)
  rw [scanOne_eq, hbody, isPointed_of_ne hpoint]
  rcases hquote with rfl | rfl <;> rfl

theorem isSpace_digit {d : Char} (hd : Number.isDigit d) : d.toNat < 0x80 ∧ isSpace d = false := by
  have hcode : 48 ≤ d.toNat ∧ d.toNat ≤ 57 := by
    rw [Number.isDigit, Bool.and_eq_true, decide_eq_true_eq, decide_eq_true_eq] at hd
    exact hd
  have hblank : d ≠ ' ' := by
    rintro rfl
    cases hd
  simp only [isSpace, Bool.or_eq_false_iff, Bool.and_eq_false_iff, decide_eq_false_iff_not, beq_eq_false_iff_ne]
  exact ⟨by omega, hblank, by omega⟩

theorem Numeral.exists_cons {text : List Char} (h : Numeral text) : ∃ c cs, text = c :: cs ∧
    (c.toNat < 0x80 ∧ isSpace c = false) ∧
    ∀ rest, (Number.isDigit c || isPointed c (cs ++ rest)) = true := by
  cases h with
  | @mk whole fraction exponent hwhole hfraction _ hstart =>
    cases whole with
    | cons d whole =>
      have hd := hwhole d List.mem_cons_self
      exact ⟨d, _, rfl, isSpace_digit hd, fun rest => by simp [hd]⟩
    | nil =>
      obtain ⟨d, ds, rfl, hd⟩ : ∃ d ds, fraction = '.' :: d :: ds ∧ Number.isDigit d := by
        rcases hfraction with rfl | ⟨ds, rfl, hds⟩
        · simp at hstart
        · cases ds with
          | nil => simp at hstart
          | cons d ds => exact ⟨d, ds, rfl, hds d List.mem_cons_self⟩
      exact ⟨'.', _, rfl, by decide, fun rest => by simp [isPointed, hd]⟩

/-- The span of a token is read back where the token reaches no further. -/
theorem scanOne_of_written {span : List Char} (h : Written k l span rest) (pos : Nat) :
    ∃ c cs, span ++ rest = c :: cs ∧ k.isBlank c = false ∧ scanOne pos c cs k = .ok (l, rest) := by
  cases h with
  | @number text _ v htext hend hread =>
    obtain ⟨c, cs, rfl, hspace, hnumber⟩ := htext.exists_cons
    refine ⟨c, cs ++ rest, rfl, k.isBlank_eq_false hspace, ?_⟩
    rw [scanOne_eq, if_pos (hnumber rest)]
    exact (scanNumber_eq_ok_iff (hnumber rest)).2 ⟨_, v, rfl, rfl, htext, hend, hread⟩
  | @named name _ hne hname hend =>
    refine ⟨'$', name ++ rest, rfl, k.isBlank_eq_false (by decide), ?_⟩
    rw [scanOne_eq, isPointed_of_ne (by decide)]
    exact scanVariable_word pos hne hname hend
  | @braced name _ hne hclose =>
    refine ⟨'$', '{' :: name ++ '}' :: rest, by simp, k.isBlank_eq_false (by decide), ?_⟩
    rw [scanOne_eq]
    exact scanVariable_braced pos hne hclose
  | @string quote content text _ hquote hcontent =>
    refine ⟨quote, content ++ quote :: rest, by simp, ?_, scanOne_string hquote hcontent pos⟩
    rcases hquote with rfl | rfl <;> exact k.isBlank_eq_false (by decide)
  | @symbol c name _ hc hname hend hfunction =>
    refine ⟨c, name ++ rest, rfl, k.isBlank_eq_false (isWordStart_spec hc).2.1, ?_⟩
    rw [scanOne_word hc hname hend]
    split
    · next o ho =>
      rw [ho] at hfunction
      rw [if_pos (parenFollows_iff.2 (hfunction.resolve_left nofun))]
    · rfl
  | @word o _ ho hend hnext =>
    have hnext : ¬ parenFollows rest k := fun h => hnext (parenFollows_iff.1 h)
    obtain ⟨c, name, htext, hc, hname⟩ := exists_cons_of_ofWord? ho
    have hop : Op.ofWord? (String.ofList (c :: name)) = some o := by rw [← htext, String.ofList_toList, ho]
    refine ⟨c, name ++ rest, by rw [htext, List.cons_append], k.isBlank_eq_false (isWordStart_spec hc).2.1, ?_⟩
    rw [scanOne_word hc hname hend, hop]
    simp only [if_neg hnext]
  | @sign o _ ho hslash =>
    cases o with
    | add => exact ⟨'+', rest, rfl, k.isBlank_eq_false (by decide), scanOne_mark rfl rfl (by decide) pos rest⟩
    | sub => exact ⟨'-', rest, rfl, k.isBlank_eq_false (by decide), scanOne_mark rfl rfl (by decide) pos rest⟩
    | mul => exact ⟨'*', rest, rfl, k.isBlank_eq_false (by decide), scanOne_mark rfl rfl (by decide) pos rest⟩
    | mod => exact ⟨'%', rest, rfl, k.isBlank_eq_false (by decide), scanOne_mark rfl rfl (by decide) pos rest⟩
    | floorDiv => exact ⟨'/', '/' :: rest, rfl, k.isBlank_eq_false (by decide), scanOne_mark rfl rfl (by decide) pos _⟩
    | div =>
      refine ⟨'/', rest, rfl, k.isBlank_eq_false (by decide), (scanOne_mark rfl rfl (by decide) pos rest).trans (scanMark_slash ?_ pos)⟩
      rintro r rfl
      exact hslash rfl rfl
    | _ => cases ho
  | lparen => exact ⟨'(', rest, rfl, k.isBlank_eq_false (by decide), scanOne_mark rfl rfl (by decide) pos rest⟩
  | rparen => exact ⟨')', rest, rfl, k.isBlank_eq_false (by decide), scanOne_mark rfl rfl (by decide) pos rest⟩
  | comma => exact ⟨',', rest, rfl, k.isBlank_eq_false (by decide), scanOne_mark rfl rfl (by decide) pos rest⟩

end Spans

/-! ## Tiled texts -/

/-- The text from some byte on is made of blanks and of the spans of the tokens, each of which starts where its token
says. -/
inductive Tiles (k : Coding) : Nat → List Char → List Token → Prop where
  | nil {pos : Nat} : Tiles k pos [] []
  | blank {pos : Nat} {c : Char} {cs : List Char} {toks : List Token} (hc : k.isBlank c)
    (h : Tiles k (pos + 1) cs toks) : Tiles k pos (c :: cs) toks
  | token {pos : Nat} {l : Lexeme} {span rest : List Char} {toks : List Token} (hl : Written k l span rest)
    (h : Tiles k (pos + k.length span) rest toks) : Tiles k pos (span ++ rest) (⟨l, pos⟩ :: toks)

variable {k : Coding}

theorem Coding.length_pos {cs : List Char} (h : cs ≠ []) : 0 < k.length cs := by
  obtain ⟨c, cs, rfl⟩ := List.exists_cons_of_ne_nil h
  cases k with
  | text =>
    have := c.utf8Size_pos
    simp only [length, Text.byteLength, List.foldr_cons]
    omega
  | bytes => exact Nat.succ_pos _

theorem Coding.length_nil (k : Coding) : k.length [] = 0 := by cases k <;> rfl

theorem Coding.length_blank {c : Char} (hc : k.isBlank c) : k.length [c] = 1 := by
  cases k with
  | bytes => rfl
  | text =>
  have hc : isSpace c := hc
  have hcode : c.toNat ≤ 127 := by
    simp only [isSpace, Bool.or_eq_true, Bool.and_eq_true, decide_eq_true_eq, beq_iff_eq] at hc
    rcases hc with rfl | hc
    · decide
    · omega
  simp only [length, Text.byteLength, List.foldr_cons, List.foldr_nil, Nat.add_zero]
  exact Char.utf8Size_eq_one_iff.2 (UInt32.le_iff_toNat_le.2 hcode)

theorem Written.span_ne_nil {l : Lexeme} {span rest : List Char} (h : Written k l span rest) : span ≠ [] := by
  cases h with
  | number htext =>
    obtain ⟨c, cs, rfl, -⟩ := htext.exists_cons
    exact List.cons_ne_nil c cs
  | @word o _ | @sign o _ => cases o <;> exact List.cons_ne_nil _ _
  | _ => exact List.cons_ne_nil _ _

theorem Tiles.le_pos {pos : Nat} {cs : List Char} {toks : List Token} (h : Tiles k pos cs toks) :
    ∀ t ∈ toks, pos ≤ t.pos := by
  induction h with
  | nil => exact fun _ ht => nomatch ht
  | blank _ _ ih => exact fun t ht => Nat.le_of_succ_le (ih t ht)
  | token _ _ ih =>
    intro t ht
    rcases List.mem_cons.1 ht with rfl | ht
    · exact Nat.le_refl _
    · exact (Nat.le_add_right _ _).trans (ih t ht)

/-- Each span takes at least one byte, so the tokens behind it start further on. -/
theorem Tiles.pairwise_pos {pos : Nat} {cs : List Char} {toks : List Token} (h : Tiles k pos cs toks) :
    toks.Pairwise fun t u => t.pos < u.pos := by
  induction h with
  | nil => exact .nil
  | blank _ _ ih => exact ih
  | token hl h ih =>
    refine .cons (fun t ht => ?_) ih
    exact (Nat.lt_add_of_pos_right (Coding.length_pos hl.span_ne_nil)).trans_le (h.le_pos t ht)

/-- What is scanned is tiled. -/
theorem tiles_of_scanAll {fuel : Nat} : ∀ {pos : Nat} {cs : List Char} {toks : List Token}, cs.length ≤ fuel →
    scanAll fuel pos cs k = .ok toks → Tiles k pos cs toks := by
  induction fuel with
  | zero =>
    intro pos cs toks hf h
    obtain rfl := List.length_eq_zero_iff.1 (Nat.le_zero.1 hf)
    cases h
    exact .nil
  | succ fuel ih =>
    intro pos cs toks hf h
    cases cs with
    | nil =>
      cases h
      exact .nil
    | cons c cs =>
      have hf : cs.length ≤ fuel := Nat.le_of_succ_le_succ hf
      rw [scanAll] at h
      split at h
      · next hc => exact .blank hc (ih hf h)
      split at h
      · cases h
      next l rest hl =>
      obtain ⟨span, hspan, hw⟩ := written_of_scanOne hl
      have hlen := length_of_scanOne hl
      obtain ⟨ts, hts, rfl⟩ := except_map_eq_ok h
      rw [hspan, Coding.length_append, Nat.add_sub_cancel] at hts
      rw [hspan]
      exact .token hw (ih (hlen.trans hf) hts)

/-- What is tiled is scanned. -/
theorem scanAll_of_tiles {pos : Nat} {cs : List Char} {toks : List Token} (h : Tiles k pos cs toks) :
    ∀ {fuel : Nat}, cs.length ≤ fuel → scanAll fuel pos cs k = .ok toks := by
  induction h with
  | nil =>
    intro fuel _
    cases fuel <;> rfl
  | @blank pos c cs toks hc _ ih =>
    intro fuel hf
    obtain ⟨fuel, rfl⟩ : ∃ f, fuel = f + 1 := ⟨fuel - 1, by simp at hf; omega⟩
    rw [scanAll, if_pos hc, ih (Nat.le_of_succ_le_succ hf)]
  | @token pos l span rest toks hl _ ih =>
    intro fuel hf
    obtain ⟨c, cs, hspan, hc, hone⟩ := scanOne_of_written hl pos
    have hlen : cs.length = span.length + rest.length - 1 := by
      have := congrArg List.length hspan
      simp only [List.length_append, List.length_cons] at this
      omega
    have hpos := List.length_pos_iff.2 hl.span_ne_nil
    rw [List.length_append] at hf
    obtain ⟨fuel, rfl⟩ : ∃ f, fuel = f + 1 := ⟨fuel - 1, by omega⟩
    rw [hspan, scanAll, if_neg (by simp [hc]), hone]
    simp only
    rw [← hspan, Coding.length_append, Nat.add_sub_cancel, ih (by omega)]
    rfl

/-- Exactly the texts that are tiled are accepted, with the tokens of the tiling. -/
theorem tokenizeChars_eq_ok_iff {cs : List Char} {toks : List Token} :
    tokenizeChars cs k = .ok toks ↔ Tiles k 0 cs toks :=
  ⟨tiles_of_scanAll le_rfl, fun h => scanAll_of_tiles h le_rfl⟩

/-- The span of each token, with what stands before and behind it. -/
theorem Tiles.exists_span {pos : Nat} {cs : List Char} {toks : List Token} (h : Tiles k pos cs toks) :
    ∀ t ∈ toks, ∃ before span rest, cs = before ++ span ++ rest ∧ t.pos = pos + k.length before ∧
      Written k t.lexeme span rest := by
  induction h with
  | nil => exact fun _ ht => nomatch ht
  | @blank pos c cs toks hc _ ih =>
    intro t ht
    obtain ⟨before, span, rest, rfl, hpos, hw⟩ := ih t ht
    refine ⟨c :: before, span, rest, rfl, ?_, hw⟩
    rw [hpos, ← List.singleton_append, Coding.length_append, Coding.length_blank hc, Nat.add_assoc]
  | @token pos l span rest toks hl _ ih =>
    intro t ht
    rcases List.mem_cons.1 ht with rfl | ht
    · exact ⟨[], span, rest, rfl, by rw [k.length_nil, Nat.add_zero], hl⟩
    · obtain ⟨before, span', rest', rfl, hpos, hw⟩ := ih t ht
      refine ⟨span ++ before, span', rest', by simp only [List.append_assoc], ?_, hw⟩
      rw [hpos, Coding.length_append, Nat.add_assoc]

/-- A word among the operators is one unless a parenthesis comes next. -/
theorem Written.operator_iff {l : Lexeme} {span rest : List Char} (h : Written k l span rest) {o : Op}
    (ho : Op.ofWord? (String.ofList span) = some o) : l = .op o ↔ ¬ ParenNext k rest := by
  have htext : o.text.toList = span := by rw [text_of_ofWord? ho, String.toList_ofList]
  obtain ⟨c, name, hspan, hc, -⟩ := exists_cons_of_ofWord? (o := o) (by rw [text_of_ofWord? ho, ho])
  obtain ⟨hdigit, -, hpoint, hdollar, hdouble, hsingle⟩ := isWordStart_spec hc
  rw [htext] at hspan
  cases h with
  | number htext =>
    obtain ⟨d, cs, rfl, -, hnumber⟩ := htext.exists_cons
    cases hspan
    cases (hnumber []).symm.trans (by rw [hdigit, isPointed_of_ne hpoint])
  | named | braced => exact absurd (List.cons.inj hspan).1.symm hdollar
  | string hquote =>
    rcases hquote with rfl | rfl
    · exact absurd (List.cons.inj hspan).1.symm hdouble
    · exact absurd (List.cons.inj hspan).1.symm hsingle
  | symbol _ _ _ hfunction =>
    rw [ho] at hfunction
    simp [hfunction.resolve_left nofun]
  | word ho' _ hnext =>
    rw [String.ofList_toList, ho'] at ho
    cases ho
    simp [hnext]
  | sign ho' =>
    rw [String.ofList_toList, ho'] at ho
    cases ho
  | lparen | rparen | comma => cases ho

/-- What is accepted is made of the spans of its tokens, in order and each written as its token says, and of blanks. The
tokens start further and further on, and a word such as `lt` is an operator exactly if no parenthesis comes next. -/
theorem tiles_of_tokenizeChars {cs : List Char} {toks : List Token} (h : tokenizeChars cs k = .ok toks) :
    Tiles k 0 cs toks ∧ (toks.Pairwise fun t u => t.pos < u.pos) ∧
      ∀ t ∈ toks, ∃ before span rest, cs = before ++ span ++ rest ∧ t.pos = k.length before ∧
        Written k t.lexeme span rest ∧
        ∀ o, Op.ofWord? (String.ofList span) = some o → (t.lexeme = .op o ↔ ¬ ParenNext k rest) := by
  have tiles : Tiles k 0 cs toks := tokenizeChars_eq_ok_iff.1 h
  refine ⟨tiles, tiles.pairwise_pos, fun t ht => ?_⟩
  obtain ⟨before, span, rest, hs, hpos, hw⟩ := tiles.exists_span t ht
  exact ⟨before, span, rest, hs, by rw [hpos, Nat.zero_add], hw, fun o ho => hw.operator_iff ho⟩

end DiagramMarkup.Expr
