import DiagramMarkup.Expr.Template
import DiagramMarkup.Proofs.Texts

/-!
# Regions in double braces

A region holds an expression, and a text around it without braces and dollar signs is left as it is. The end of the
region is searched as text, though, while the expression may hold braces of its own, in strings and around the names of
variables.

1. A closing brace is of no use to an expression but within quotes or behind `${`. So where the text of an expression is
   cut at one, with the blanks in front of it, a string or a name is left open (`tokenizeChars_cut`).
2. An expression that could close its region early is cut at a brace, and its region cannot be read. Every other one is
   evaluated as it stands (`expand_region`).
-/

namespace DiagramMarkup

namespace Expr

/-! ## Where tokens end -/

/-- The character is a blank, a closing brace or beyond it, or a control character. No token holds it but between quotes
and behind `${`. -/
def Outside (d : Char) : Prop := d.toNat ≤ 32 ∨ 125 ≤ d.toNat

/-- The text starts with a character that no token holds. -/
def Breaks (g : List Char) : Prop := ∃ d r, g = d :: r ∧ Outside d

section Characters

variable {d : Char}

theorem outside_of_isBlank (h : Text.isBlank d) : Outside d := by
  simp only [Text.isBlank, Bool.or_eq_true, Bool.and_eq_true, decide_eq_true_eq, beq_iff_eq] at h
  simp only [Outside]
  omega

theorem outside_brace : Outside '}' := .inr (by decide)

theorem Outside.ne (h : Outside d) {c : Char} (hc : 32 < c.toNat ∧ c.toNat < 125) : d ≠ c := by
  rintro rfl
  rcases h with h | h <;> omega

theorem Outside.isDigit (h : Outside d) : Number.isDigit d = false := by
  simp only [Number.isDigit, Bool.and_eq_false_iff, decide_eq_false_iff_not, Char.le_def, UInt32.le_iff_toNat_le]
  change ¬ 48 ≤ d.toNat ∨ ¬ d.toNat ≤ 57
  rcases h with h | h <;> omega

theorem Outside.isWordStart (h : Outside d) : isWordStart d = false := by
  have hu := h.ne (c := '_') (by decide)
  simp only [Expr.isWordStart, Bool.or_eq_false_iff, Bool.and_eq_false_iff, decide_eq_false_iff_not, Char.le_def,
    UInt32.le_iff_toNat_le, beq_eq_false_iff_ne]
  change (d ≠ '_' ∧ (¬ 97 ≤ d.toNat ∨ ¬ d.toNat ≤ 122)) ∧ (¬ 65 ≤ d.toNat ∨ ¬ d.toNat ≤ 90)
  rcases h with h | h
  · exact ⟨⟨hu, by omega⟩, by omega⟩
  · exact ⟨⟨hu, by omega⟩, by omega⟩

theorem Outside.isWordChar (h : Outside d) : isWordChar d = false := by
  simp [Expr.isWordChar, h.isWordStart, h.isDigit]

theorem Outside.gluesToNumber (h : Outside d) : gluesToNumber d = false := by
  simp [Expr.gluesToNumber, h.isWordChar, h.ne (c := '.') (by decide)]

end Characters

variable {g : List Char}

theorem Breaks.takeWhile {p : Char → Bool} (h : Breaks g) (hp : ∀ d, Outside d → p d = false) (x : List Char) :
    (x ++ g).takeWhile p = x.takeWhile p := by
  obtain ⟨d, r, rfl, hd⟩ := h
  exact Text.takeWhile_stop (hp d hd) x r

theorem Breaks.dropWhile {p : Char → Bool} (h : Breaks g) (hp : ∀ d, Outside d → p d = false) (x : List Char) :
    (x ++ g).dropWhile p = x.dropWhile p ++ g := by
  obtain ⟨d, r, rfl, hd⟩ := h
  exact Text.dropWhile_stop (hp d hd) x r

/-! ## Tokens of a cut text -/

/-- The sign of an exponent, if there is one, and the rest. -/
def splitSign : List Char → List Char × List Char
  | '+' :: r => (['+'], r)
  | '-' :: r => (['-'], r)
  | r => ([], r)

theorem splitSign_append (h : Breaks g) (x : List Char) :
    splitSign (x ++ g) = ((splitSign x).1, (splitSign x).2 ++ g) := by
  obtain ⟨d, r, rfl, hd⟩ := h
  cases x with
  | nil => simp [splitSign, hd.ne (c := '+') (by decide), hd.ne (c := '-') (by decide)]
  | cons a x =>
    by_cases hp : a = '+'
    · subst hp; rfl
    by_cases hm : a = '-'
    · subst hm; rfl
    simp [splitSign, hp, hm]

/-- An exponent in terms of its sign and digits. -/
theorem scanExponent_cons (e : Char) (rest : List Char) :
    scanExponent (e :: rest) =
      if e == 'e' || e == 'E' then
        if ((splitSign rest).2.takeWhile Number.isDigit).isEmpty then ([], e :: rest)
        else (e :: (splitSign rest).1 ++ (splitSign rest).2.takeWhile Number.isDigit,
          (splitSign rest).2.dropWhile Number.isDigit)
      else ([], e :: rest) := rfl

theorem scanExponent_append (h : Breaks g) (x : List Char) :
    scanExponent (x ++ g) = ((scanExponent x).1, (scanExponent x).2 ++ g) := by
  cases x with
  | nil =>
    obtain ⟨d, r, rfl, hd⟩ := h
    simp [scanExponent, hd.ne (c := 'e') (by decide), hd.ne (c := 'E') (by decide)]
  | cons e x =>
    rw [List.cons_append, scanExponent_cons, scanExponent_cons]
    simp only [splitSign_append h, h.takeWhile fun _ => Outside.isDigit, h.dropWhile fun _ => Outside.isDigit]
    split
    · split <;> rfl
    · rfl

/-- The fraction of a number, if there is one, and the rest. -/
def splitFraction : List Char → List Char × List Char
  | '.' :: r => ('.' :: r.takeWhile Number.isDigit, r.dropWhile Number.isDigit)
  | r => ([], r)

theorem splitFraction_append (h : Breaks g) (x : List Char) :
    splitFraction (x ++ g) = ((splitFraction x).1, (splitFraction x).2 ++ g) := by
  have digits := fun y => h.takeWhile (fun _ => Outside.isDigit) y
  have behind := fun y => h.dropWhile (fun _ => Outside.isDigit) y
  obtain ⟨d, r, rfl, hd⟩ := h
  cases x with
  | nil => simp [splitFraction, hd.ne (c := '.') (by decide)]
  | cons a x =>
    by_cases hp : a = '.'
    · subst hp
      simp [splitFraction, digits, behind]
    simp [splitFraction, hp]

/-- A number in terms of its parts. -/
theorem spanNumber_eq (x : List Char) :
    spanNumber x =
      (x.takeWhile Number.isDigit ++ (splitFraction (x.dropWhile Number.isDigit)).1 ++
        (scanExponent (splitFraction (x.dropWhile Number.isDigit)).2).1,
        (scanExponent (splitFraction (x.dropWhile Number.isDigit)).2).2) := rfl

theorem spanNumber_append (h : Breaks g) (x : List Char) :
    spanNumber (x ++ g) = ((spanNumber x).1, (spanNumber x).2 ++ g) := by
  simp only [spanNumber_eq, h.takeWhile fun _ => Outside.isDigit, h.dropWhile fun _ => Outside.isDigit,
    splitFraction_append h, scanExponent_append h]

theorem scanNumber_append (h : Breaks g) (x : List Char) :
    scanNumber (x ++ g) = (scanNumber x).map fun (l, rest) => (l, rest ++ g) := by
  unfold scanNumber
  simp only [spanNumber_append h, h.takeWhile fun _ => Outside.gluesToNumber]
  split
  · split <;> rfl
  · rfl

/-- A token of the whole text is one of the cut text, or the cut text leaves it open. -/
def Cut (g : List Char) (whole cut : Except Cause (Lexeme × List Char)) : Prop :=
  ∀ l rest, whole = .ok (l, rest) → (∃ e, cut = .error e) ∨ ∃ l' rest', cut = .ok (l', rest') ∧ rest = rest' ++ g

theorem cut_map {cut : Except Cause (Lexeme × List Char)} : Cut g (cut.map fun (l, rest) => (l, rest ++ g)) cut := by
  intro l rest hl
  cases cut with
  | error e => exact .inl ⟨e, rfl⟩
  | ok r =>
    cases hl
    exact .inr ⟨_, _, rfl, rfl⟩

theorem cut_ok {l l' : Lexeme} {rest : List Char} : Cut g (.ok (l, rest ++ g)) (.ok (l', rest)) := by
  intro k r hk
  cases hk
  exact .inr ⟨_, _, rfl, rfl⟩

theorem cut_error {e : Cause} {cut : Except Cause (Lexeme × List Char)} : Cut g (.error e) cut := fun _ _ h => nomatch h

theorem cut_open {e : Cause} {whole : Except Cause (Lexeme × List Char)} : Cut g whole (.error e) :=
  fun _ _ _ => .inl ⟨e, rfl⟩

theorem cut_scanVariable (h : Breaks g) (pos : Nat) (x : List Char) :
    Cut g (scanVariable pos (x ++ g)) (scanVariable pos x) := by
  have words := h.takeWhile (fun _ => Outside.isWordChar) x
  have behind := h.dropWhile (fun _ => Outside.isWordChar) x
  by_cases hx : ∃ y, x = '{' :: y
  · obtain ⟨y, rfl⟩ := hx
    rw [List.cons_append, scanVariable, scanVariable]
    cases hb : Text.breakOn ['}'] y with
    | none => exact cut_open
    | some r =>
      obtain ⟨name, rest⟩ := r
      rw [Text.breakOn_append (by simp) hb]
      cases name with
      | nil => exact cut_open
      | cons c name => exact cut_ok
  · have plain : ∀ y, (∀ z, y ≠ '{' :: z) → scanVariable pos y =
        if (y.takeWhile isWordChar).isEmpty then .error (.missingVariable pos)
        else .ok (.var (String.ofList (y.takeWhile isWordChar)), y.dropWhile isWordChar) := by
      intro y hy
      unfold scanVariable
      split
      · exact absurd rfl (hy _)
      · rfl
    rw [plain x fun z hz => hx ⟨z, hz⟩, plain (x ++ g), words, behind]
    · split
      · exact cut_open
      · exact cut_ok
    · rintro z hz
      cases x with
      | nil =>
        obtain ⟨d, r, rfl, hd⟩ := h
        exact hd.ne (by decide) (List.cons.inj hz).1
      | cons a x => exact hx ⟨x, by rw [(List.cons.inj hz).1]⟩

theorem stringBody_append {quote : Char} (hq : quote ≠ '\\') {x body rest : List Char}
    (h : stringBody quote x = some (body, rest)) (g : List Char) :
    stringBody quote (x ++ g) = some (body, rest ++ g) := by
  fun_induction stringBody quote x generalizing body with
  | case1 => cases h
  | case2 c x ih =>
    obtain ⟨⟨b, r⟩, hb, he⟩ := Option.map_eq_some_iff.1 h
    cases he
    rw [List.cons_append, List.cons_append, stringBody, ih hb]
    rfl
  | case3 c x hx hc =>
    cases h
    obtain rfl := eq_of_beq hc
    rw [List.cons_append, stringBody.eq_3 _ _ _ fun _ _ he => absurd he hq, if_pos hc]
  | case4 c x hx hc ih =>
    obtain ⟨⟨b, r⟩, hb, he⟩ := Option.map_eq_some_iff.1 h
    cases he
    have hne : ∀ d r, c = '\\' → x ++ g = d :: r → False := by
      rintro d r rfl _
      cases x with
      | nil => cases hb
      | cons a x => exact hx a x rfl rfl
    rw [List.cons_append, stringBody.eq_3 _ _ _ hne, if_neg hc, ih hb]
    rfl

/-- Does a fraction without digits in front of it start here? -/
def isPointed (c : Char) : List Char → Bool
  | d :: _ => c == '.' && Number.isDigit d
  | [] => false

/-- Read a parenthesis, a comma or an operator sign. -/
def scanMark (pos : Nat) (c : Char) (cs : List Char) : Except Cause (Lexeme × List Char) :=
  match c, cs with
  | '(', _ => .ok (.lparen, cs)
  | ')', _ => .ok (.rparen, cs)
  | ',', _ => .ok (.comma, cs)
  | '/', '/' :: rest => .ok (.op .floorDiv, rest)
  | '+', _ => .ok (.op .add, cs)
  | '-', _ => .ok (.op .sub, cs)
  | '*', _ => .ok (.op .mul, cs)
  | '/', _ => .ok (.op .div, cs)
  | '%', _ => .ok (.op .mod, cs)
  | _, _ => .error (.unexpectedChar c pos)

/-- One token, by its first character. -/
theorem scanOne_eq (pos : Nat) (c : Char) (cs : List Char) {k : Coding} :
    scanOne pos c cs k =
      if Number.isDigit c || isPointed c cs then scanNumber (c :: cs)
      else if c == '$' then scanVariable pos cs
      else if c == '"' || c == '\'' then
        match stringBody c cs with
        | none => .error (.openString pos)
        | some (body, rest) => .ok (.string (String.ofList body), rest)
      else if isWordStart c then
        match Op.ofWord? (String.ofList ((c :: cs).takeWhile isWordChar)) with
        | some o =>
          .ok (if parenFollows ((c :: cs).dropWhile isWordChar) k then
              .symbol (String.ofList ((c :: cs).takeWhile isWordChar))
            else .op o, (c :: cs).dropWhile isWordChar)
        | none => .ok (.symbol (String.ofList ((c :: cs).takeWhile isWordChar)), (c :: cs).dropWhile isWordChar)
      else scanMark pos c cs := rfl

theorem scanMark_slash {cs : List Char} (h : ∀ r, cs ≠ '/' :: r) (pos : Nat) :
    scanMark pos '/' cs = .ok (.op .div, cs) := by
  cases cs with
  | nil => rfl
  | cons a cs => simp [scanMark]

theorem cut_scanMark (h : Breaks g) (pos : Nat) (c : Char) (cs : List Char) :
    Cut g (scanMark pos c (cs ++ g)) (scanMark pos c cs) := by
  by_cases hc : c = '/'
  · subst hc
    by_cases hs : ∃ r, cs = '/' :: r
    · obtain ⟨r, rfl⟩ := hs
      exact cut_ok
    have whole : ∀ r, cs ++ g ≠ '/' :: r := by
      intro r hr
      cases cs with
      | nil =>
        obtain ⟨d, r, rfl, hd⟩ := h
        exact hd.ne (by decide) (List.cons.inj hr).1
      | cons a cs => exact hs ⟨cs, by rw [(List.cons.inj hr).1]⟩
    rw [scanMark_slash whole, scanMark_slash fun r hr => hs ⟨r, hr⟩]
    exact cut_ok
  · unfold scanMark
    split
    all_goals first | exact cut_ok | exact cut_error | exact absurd rfl hc

/-- A token of the whole text is one of the cut text, or the cut text leaves it open. -/
theorem cut_scanOne (h : Breaks g) (pos : Nat) (c : Char) (cs : List Char) :
    Cut g (scanOne pos c (cs ++ g)) (scanOne pos c cs) := by
  have pointed : isPointed c (cs ++ g) = isPointed c cs := by
    obtain ⟨d, r, rfl, hd⟩ := h
    cases cs with
    | nil => simp [isPointed, hd.isDigit]
    | cons a cs => rfl
  have number := scanNumber_append h (c :: cs)
  have words := h.takeWhile (fun _ => Outside.isWordChar) (c :: cs)
  have behind := h.dropWhile (fun _ => Outside.isWordChar) (c :: cs)
  rw [List.cons_append] at number words behind
  rw [scanOne_eq, scanOne_eq, pointed, number, words, behind]
  split
  · exact cut_map
  split
  · exact cut_scanVariable h pos cs
  split
  · next hq =>
    cases hb : stringBody c cs with
    | none => exact cut_open
    | some r =>
      have hc : c ≠ '\\' := by
        rintro rfl
        exact absurd hq (by decide)
      rw [stringBody_append hc hb]
      exact cut_ok
  split
  · split <;> exact cut_ok
  · exact cut_scanMark h pos c cs

/-! ## Cut expressions -/

theorem length_scanExponent (x : List Char) : (scanExponent x).2.length ≤ x.length := by
  cases x with
  | nil => exact Nat.le_refl _
  | cons e x =>
    have hs : (splitSign x).2.length ≤ x.length := by
      unfold splitSign
      split <;> simp
    have := List.length_dropWhile_le Number.isDigit (splitSign x).2
    rw [scanExponent_cons]
    split
    · split
      · exact Nat.le_refl _
      · simp only [List.length_cons]
        omega
    · exact Nat.le_refl _

theorem length_splitFraction (x : List Char) : (splitFraction x).2.length ≤ x.length := by
  unfold splitFraction
  split
  · exact (List.length_dropWhile_le _ _).trans (Nat.le_succ _)
  · exact Nat.le_refl _

theorem length_spanNumber {c : Char} {cs : List Char} (h : (Number.isDigit c || isPointed c cs) = true) :
    (spanNumber (c :: cs)).2.length ≤ cs.length := by
  rw [spanNumber_eq]
  refine (length_scanExponent _).trans ?_
  by_cases hc : Number.isDigit c
  · rw [List.dropWhile_cons_of_pos hc]
    exact (length_splitFraction _).trans (List.length_dropWhile_le _ _)
  · rw [List.dropWhile_cons_of_neg hc]
    have hdot : c = '.' := by
      cases cs with
      | nil => simp [hc, isPointed] at h
      | cons d cs => simp_all [isPointed]
    subst hdot
    exact List.length_dropWhile_le _ _

theorem length_stringBody {quote : Char} {x body rest : List Char} (h : stringBody quote x = some (body, rest)) :
    rest.length ≤ x.length := by
  fun_induction stringBody quote x generalizing body with
  | case1 => cases h
  | case2 c x ih =>
    obtain ⟨⟨b, r⟩, hb, he⟩ := Option.map_eq_some_iff.1 h
    cases he
    have := ih hb
    simp only [List.length_cons]
    omega
  | case3 c x =>
    cases h
    simp
  | case4 c x _ _ ih =>
    obtain ⟨⟨b, r⟩, hb, he⟩ := Option.map_eq_some_iff.1 h
    cases he
    have := ih hb
    simp only [List.length_cons]
    omega

theorem length_scanVariable {pos : Nat} {x rest : List Char} {l : Lexeme}
    (h : scanVariable pos x = .ok (l, rest)) : rest.length ≤ x.length := by
  unfold scanVariable at h
  split at h
  · split at h
    · cases h
    · cases h
    · next hb =>
      cases h
      rw [Text.eq_of_breakOn hb]
      simp only [List.length_cons, List.length_append]
      omega
  · simp only at h
    split at h
    · cases h
    · cases h
      exact List.length_dropWhile_le _ _

/-- Each token takes at least one character. -/
theorem length_of_scanOne {pos : Nat} {c : Char} {cs rest : List Char} {l : Lexeme} {k : Coding}
    (h : scanOne pos c cs k = .ok (l, rest)) : rest.length ≤ cs.length := by
  rw [scanOne_eq] at h
  split at h
  · next hn =>
    have := length_spanNumber hn
    unfold scanNumber at h
    simp only at h
    split at h
    · split at h
      · cases h
        exact this
      · cases h
    · cases h
  split at h
  · exact length_scanVariable h
  split at h
  · split at h
    · cases h
    · next hb =>
      cases h
      exact length_stringBody hb
  split at h
  · next hw =>
    have hc : isWordChar c := by simp [isWordChar, hw]
    rw [List.dropWhile_cons_of_pos hc] at h
    split at h <;> cases h <;> exact List.length_dropWhile_le _ _
  · unfold scanMark at h
    split at h <;> cases h <;> simp

/-- Such a character is no token, and only some blanks are skipped. -/
theorem scanOne_outside {d : Char} (h : Outside d) (pos : Nat) (cs : List Char) (k : Coding := .text) :
    scanOne pos d cs k = .error (.unexpectedChar d pos) := by
  have ne := fun c hc => h.ne (c := c) hc
  have dot : isPointed d cs = false := by
    cases cs with
    | nil => rfl
    | cons a cs => simp [isPointed, ne '.' (by decide)]
  have mark : scanMark pos d cs = .error (.unexpectedChar d pos) := by
    unfold scanMark
    split
    all_goals first | rfl | exact absurd rfl (ne _ (by decide))
  rw [scanOne_eq, mark]
  simp [h.isDigit, dot, h.isWordStart, ne '$' (by decide), ne '"' (by decide), ne '\'' (by decide)]

/-- Blanks and a closing brace behind them are no tokens. -/
theorem scanAll_outside {ws r : List Char} (hws : ∀ d ∈ ws, Text.isBlank d) :
    ∀ {fuel : Nat}, (ws ++ '}' :: r).length ≤ fuel → ∀ pos, ∃ e, scanAll fuel pos (ws ++ '}' :: r) = .error e := by
  induction ws with
  | nil =>
    intro fuel hf pos
    obtain ⟨fuel, rfl⟩ : ∃ f, fuel = f + 1 := ⟨fuel - 1, by simp at hf; omega⟩
    rw [List.nil_append, scanAll, if_neg (by decide), scanOne_outside outside_brace]
    exact ⟨_, rfl⟩
  | cons d ws ih =>
    intro fuel hf pos
    obtain ⟨hd, hws⟩ := List.forall_mem_cons.1 hws
    obtain ⟨fuel, rfl⟩ : ∃ f, fuel = f + 1 := ⟨fuel - 1, by simp at hf; omega⟩
    rw [List.cons_append, scanAll]
    split
    · exact ih hws (by simp at hf ⊢; omega) _
    · rw [scanOne_outside (outside_of_isBlank hd)]
      exact ⟨_, rfl⟩

theorem except_map_eq_ok {ε α β : Type} {r : Except ε α} {f : α → β} {b : β} (h : r.map f = .ok b) :
    ∃ a, r = .ok a ∧ f a = b := by
  cases r with
  | error e => cases h
  | ok a =>
    cases h
    exact ⟨a, rfl, rfl⟩

theorem Coding.length_append (k : Coding) (x y : List Char) : k.length (x ++ y) = k.length x + k.length y := by
  cases k with
  | text =>
    simp only [Coding.length]
    induction x with
    | nil => simp [Text.byteLength]
    | cons c x ih =>
      simp only [Text.byteLength, List.cons_append, List.foldr_cons] at ih ⊢
      omega
  | bytes => exact List.length_append

/-- Scanning goes the same way in the whole text as in the cut one, until the cut one leaves a token open. -/
theorem scanAll_cut (breaks : Breaks g)
    (ends : ∀ {fuel : Nat}, g.length ≤ fuel → ∀ pos, ∃ e, scanAll fuel pos g = .error e) :
    ∀ {cs : List Char} {fuel fuel' pos : Nat} {toks : List Token}, cs.length ≤ fuel' → (cs ++ g).length ≤ fuel →
      scanAll fuel pos (cs ++ g) = .ok toks → ∃ e, scanAll fuel' pos cs = .error e := by
  intro cs fuel fuel' pos toks hf' hf h
  have nonempty : cs ≠ [] := by
    rintro rfl
    obtain ⟨e, he⟩ := ends hf pos
    rw [List.nil_append, he] at h
    cases h
  induction fuel' generalizing cs fuel pos toks with
  | zero => exact absurd (List.length_eq_zero_iff.1 (Nat.le_zero.1 hf')) nonempty
  | succ fuel' ih =>
    have ih : ∀ {cs : List Char} {pos : Nat} {toks : List Token} {fuel : Nat}, cs.length ≤ fuel' →
        (cs ++ g).length ≤ fuel → scanAll fuel pos (cs ++ g) = .ok toks → ∃ e, scanAll fuel' pos cs = .error e := by
      intro cs pos toks fuel hf' hf h
      refine ih hf' hf h ?_
      rintro rfl
      obtain ⟨e, he⟩ := ends hf pos
      rw [List.nil_append, he] at h
      cases h
    obtain ⟨c, cs, rfl⟩ := List.exists_cons_of_ne_nil nonempty
    obtain ⟨fuel, rfl⟩ : ∃ f, fuel = f + 1 := ⟨fuel - 1, by simp at hf; omega⟩
    simp only [List.cons_append, List.length_cons, Nat.add_le_add_iff_right] at hf hf'
    rw [List.cons_append, scanAll] at h
    rw [scanAll]
    split at h
    · next hs =>
      rw [if_pos hs]
      exact ih hf' hf h
    next hs =>
    rw [if_neg hs]
    split at h
    · cases h
    next l rest hl =>
    rcases cut_scanOne breaks pos c cs l rest hl with ⟨e, he⟩ | ⟨l', rest', hl', rfl⟩
    · rw [he]
      exact ⟨e, rfl⟩
    have hlen := length_of_scanOne hl'
    rw [← List.cons_append, Coding.length_append _ (c :: cs), Coding.length_append _ rest', Nat.add_sub_add_right] at h
    obtain ⟨ts, hts, -⟩ := except_map_eq_ok h
    obtain ⟨e, he⟩ := ih (by omega) (by simp only [List.length_append] at hf ⊢; omega) hts
    rw [hl']
    simp only [he]
    exact ⟨e, rfl⟩

/-- Where a text is cut at a closing brace, with the blanks in front of it, some token is left open. -/
theorem tokenizeChars_cut {u ws r : List Char} {toks : List Token} (hws : ∀ d ∈ ws, Text.isBlank d)
    (h : tokenizeChars (u ++ (ws ++ '}' :: r)) = .ok toks) : ∃ e, tokenizeChars u = .error e := by
  have breaks : Breaks (ws ++ '}' :: r) := by
    cases ws with
    | nil => exact ⟨_, _, rfl, outside_brace⟩
    | cons d ws => exact ⟨_, _, rfl, outside_of_isBlank (hws d (by simp))⟩
  exact scanAll_cut breaks (scanAll_outside hws) (Nat.le_refl _) (Nat.le_refl _) h

/-! ## Tokenize errors -/

theorem kind_of_scanOne {pos : Nat} {c : Char} {cs : List Char} {e : Cause} (h : scanOne pos c cs = .error e) :
    e.kind = .tokenize := by
  rw [scanOne_eq] at h
  split at h
  · unfold scanNumber at h
    simp only at h
    split at h
    · split at h <;> cases h
      rfl
    · cases h
      rfl
  split at h
  · unfold scanVariable at h
    split at h
    · split at h <;> cases h <;> rfl
    · simp only at h
      split at h <;> cases h
      rfl
  split at h
  · split at h <;> cases h
    rfl
  split at h
  · split at h <;> cases h
  · unfold scanMark at h
    split at h <;> cases h
    rfl

theorem kind_of_scanAll {fuel pos : Nat} {cs : List Char} {e : Cause} (h : scanAll fuel pos cs = .error e) :
    e.kind = .tokenize := by
  induction fuel generalizing pos cs with
  | zero => cases h
  | succ fuel ih =>
    cases cs with
    | nil => cases h
    | cons c cs =>
      rw [scanAll] at h
      split at h
      · exact ih h
      split at h
      · next he =>
        cases h
        exact kind_of_scanOne he
      next l rest _ =>
      cases hall : scanAll fuel (pos + (Coding.text.length (c :: cs) - Coding.text.length rest)) rest with
      | error e' =>
        simp only [hall] at h
        cases h
        exact ih hall
      | ok ts =>
        simp only [hall] at h
        cases h

theorem kind_of_tokenizeChars {cs : List Char} {e : Cause} (h : tokenizeChars cs = .error e) : e.kind = .tokenize :=
  kind_of_scanAll h

/-! ## Regions -/

/-- The text has no braces and no references. -/
def Bare (s : String) : Prop := '{' ∉ s.toList ∧ '}' ∉ s.toList ∧ '$' ∉ s.toList

instance (s : String) : Decidable (Bare s) := inferInstanceAs (Decidable (_ ∧ _))

/-- A region of the expression would be closed within it: the expression holds a closing double brace, or ends in a
brace that makes one with those behind it. -/
def closesEarly (e : String) : Bool := Text.occurs closeMark (e.toList ++ ['}'])

theorem substituteChars_eq (var? : String → Option String) {cs : List Char} (h : '$' ∉ cs) :
    substituteChars var? cs = cs :=
  if_neg (by simpa using h)

theorem breakOn_closeMark {e : List Char} (h : Text.occurs closeMark (e ++ ['}']) = false) (after : List Char) :
    Text.breakOn closeMark (e ++ closeMark ++ after) = some (e, after) :=
  Text.breakOn_first (by decide) (Text.not_infix_of_occurs (by decide) h) after

/-- The region behind a bare text is read up to the first closing double brace. -/
theorem exists_expand_eq (env : Env) {before rest : String} {inner after : List Char} (hb : Bare before)
    (h : Text.breakOn closeMark rest.toList = some (inner, after)) :
    ∃ source fuel, expand env (before ++ "\x7b\x7b" ++ rest) = (do
      let v ← eval env (String.ofList (Text.trimChars inner))
      let out ← expandFuel env source fuel after
      return before ++ v.render ++ String.ofList out) := by
  have hopen : Text.breakOn openMark (before ++ "\x7b\x7b" ++ rest).toList = some (before.toList, rest.toList) := by
    simpa [openMark] using @Text.breakOn_of_not_mem '{' ['{'] _ hb.1 rest.toList
  have htemplate : hasTemplate (before ++ "\x7b\x7b" ++ rest) = true := by
    rw [hasTemplate, Text.occurs, hopen]
    simp
  obtain ⟨fuel, hfuel⟩ : ∃ f, (before ++ "\x7b\x7b" ++ rest).toList.length = f + 1 :=
    ⟨_, (Nat.succ_pred_eq_of_pos (List.length_pos_iff.2 (by simp))).symm⟩
  refine ⟨before ++ "\x7b\x7b" ++ rest, fuel, ?_⟩
  rw [expand, if_pos htemplate, hfuel, expandFuel, hopen]
  simp only [h, pure_bind, bind_assoc, substituteChars_eq env.var? hb.2.2]
  simp [String.append_assoc]

theorem expandFuel_bare (env : Env) (source : String) {cs : List Char} (hopen : '{' ∉ cs) (href : '$' ∉ cs) :
    ∀ fuel, expandFuel env source fuel cs = pure cs
  | 0 => by rw [expandFuel, substituteChars_eq _ href]
  | fuel + 1 => by
    rw [expandFuel, show Text.breakOn openMark cs = none from Text.breakOn_eq_none hopen]
    exact congrArg pure (substituteChars_eq _ href)

/-- An expression that closes its region early is one that its first closing double brace cuts at a brace of its own. -/
theorem exists_cut {e : List Char} (h : Text.occurs closeMark (e ++ ['}']) = true) (after : List Char) :
    ∃ u r rest, e = u ++ '}' :: r ∧ Text.breakOn closeMark (e ++ closeMark ++ after) = some (u, rest) := by
  obtain ⟨⟨u, v⟩, hu⟩ := Option.isSome_iff_exists.1 h
  have hrest := Text.breakOn_append (by decide) hu ('}' :: after)
  have he : e ++ ['}'] = (u ++ '}' :: ('}' :: v)) := by simpa [closeMark] using Text.eq_of_breakOn hu
  refine ⟨u, ('}' :: v).dropLast, v ++ '}' :: after, ?_, by simpa [closeMark] using hrest⟩
  have := congrArg List.dropLast he
  simpa [List.dropLast_append_of_ne_nil] using this

/-- A cut expression leaves a token open. -/
theorem eval_cut (env : Env) {u r : List Char} {t : Term}
    (h : parse (String.ofList (Text.trimChars (u ++ '}' :: r))) = .ok t) :
    ∃ err : Error, err.kind = .tokenize ∧ eval env (String.ofList (Text.trimChars u)) = throw err := by
  obtain ⟨ws, r', hr, hws⟩ := Text.exists_trimChars_cut (c := '}') (by decide) u r
  rw [parse, tokenize, String.toList_ofList, hr] at h
  cases htoks : tokenizeChars (Text.trimChars u ++ (ws ++ '}' :: r')) with
  | error c =>
    rw [htoks] at h
    cases h
  | ok toks =>
    obtain ⟨c, hc⟩ := tokenizeChars_cut hws htoks
    refine ⟨⟨c, String.ofList (Text.trimChars u)⟩, kind_of_tokenizeChars hc, ?_⟩
    unfold eval parse tokenize
    rw [String.toList_ofList, hc]
    rfl

/-- The region of an expression behind and in front of bare texts is the value of the expression, unless the expression
closes its region early; then the region is a tokenize error. -/
theorem expand_region (env : Env) {before e after : String} {t : Term} (hb : Bare before) (ha : Bare after)
    (he : parse (Text.trim e) = .ok t) :
    (closesEarly e = false ∧ expand env (before ++ "\x7b\x7b" ++ e ++ "\x7d\x7d" ++ after) = (do
        let v ← eval env (Text.trim e)
        return before ++ v.render ++ after)) ∨
      (closesEarly e = true ∧ ∃ err : Error, err.kind = .tokenize ∧
        expand env (before ++ "\x7b\x7b" ++ e ++ "\x7d\x7d" ++ after) = throw err) := by
  have regroup : before ++ "\x7b\x7b" ++ e ++ "\x7d\x7d" ++ after =
      before ++ "\x7b\x7b" ++ (e ++ "\x7d\x7d" ++ after) := by
    simp only [String.append_assoc]
  rw [regroup]
  cases hc : closesEarly e with
  | false =>
    have hclose : Text.breakOn closeMark (e ++ "\x7d\x7d" ++ after).toList = some (e.toList, after.toList) := by
      simpa [closeMark] using breakOn_closeMark hc after.toList
    obtain ⟨source, fuel, heq⟩ := exists_expand_eq env hb hclose
    refine .inl ⟨rfl, ?_⟩
    simpa [expandFuel_bare env source ha.1 ha.2.2, Text.trim] using heq
  | true =>
    obtain ⟨u, r, rest, hu, hclose⟩ := exists_cut hc after.toList
    have hclose : Text.breakOn closeMark (e ++ "\x7d\x7d" ++ after).toList = some (u, rest) := by
      simpa [closeMark] using hclose
    obtain ⟨source, fuel, heq⟩ := exists_expand_eq env hb hclose
    have hparse : parse (String.ofList (Text.trimChars (u ++ '}' :: r))) = .ok t := by
      rw [← hu]
      exact he
    obtain ⟨err, hkind, herr⟩ := eval_cut env hparse
    refine .inr ⟨rfl, err, hkind, ?_⟩
    rw [heq, herr]
    rfl

/-- A brace within quotes does not close a region. -/
theorem expand_region_quoted :
    expand { var? := fun _ => none } "<\x7b\x7b '\x7d ' \x7d\x7d>" = pure "<\x7d >" := by
  have hb : Bare "<" := by decide
  have ha : Bare ">" := by decide
  have he : parse (Text.trim " '\x7d ' ") = .ok (.string "\x7d ") := rfl
  rcases expand_region { var? := fun _ => none } hb ha he with ⟨-, h⟩ | ⟨h, -⟩
  · exact h
  · exact absurd h (by decide)

/-- The name of a variable in braces makes its region end one brace too early. -/
theorem region_cut_short :
    let env : Env := { var? := fun _ => some "red" }
    parse (Text.trim "$\x7ba\x7d") = .ok (.var "a") ∧
      eval env (Text.trim "$\x7ba\x7d") = pure (.string "red") ∧
      expand env "\x7b\x7b$\x7ba\x7d\x7d\x7d" = throw ⟨.openVariable 0, "$\x7ba"⟩ :=
  ⟨rfl, rfl, rfl⟩

end Expr

end DiagramMarkup
