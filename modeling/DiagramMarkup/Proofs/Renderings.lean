import DiagramMarkup.Proofs.Decimals
import DiagramMarkup.Proofs.Groups

/-!
# Path data written again

The expansion of repeat groups is written as text, which is path data again.

1. Tokens of path data are commands and finite numbers (`readable_of_tokenize`).
2. Such tokens are written one behind the other, and what is written is tokenized as the same commands, with each
   number replaced by what its text reads as (`exists_tokenize_text`).
3. So path data with groups is expanded to path data without groups, exactly if its tokens write a tree that the limit
   allows (`expandRepeats_groups`).
-/

namespace DiagramMarkup.Path

open Number (isDigit isFinite Decimal)

/-! ## Numbers -/

theorem spanSign_chars (d : Decimal) (rest : List Char) :
    spanSign (d.chars ++ rest) = (if d.neg then ['-'] else [], d.body ++ rest) := by
  obtain ⟨c, cs, hcs, hc⟩ := d.exists_body_eq_cons
  unfold Decimal.chars
  cases d.neg with
  | true => rfl
  | false =>
    rw [if_neg (by decide), if_neg (by decide), hcs, List.cons_append]
    unfold spanSign
    split
    · next heq =>
      cases heq
      cases hc
    · next heq =>
      cases heq
      cases hc
    · rfl

theorem spanMantissa_digits {ds : List Char} (hds : ∀ c ∈ ds, isDigit c) (dot : Bool) (rest : List Char) :
    spanMantissa dot (ds ++ rest) = (ds ++ (spanMantissa dot rest).1, (spanMantissa dot rest).2) := by
  induction ds with
  | nil => rfl
  | cons d ds ih =>
    rw [List.cons_append, spanMantissa, if_pos (hds d List.mem_cons_self),
      ih fun c hc => hds c (List.mem_cons_of_mem _ hc)]
    rfl

/-- The text goes on with nothing but a blank. -/
def Breaks (rest : List Char) : Prop := Text.Ends (· != ' ') rest

theorem breaks_nil : Breaks [] := by rintro c ⟨⟩

theorem breaks_blank (rest : List Char) : Breaks (' ' :: rest) := by
  rintro c ⟨⟩
  rfl

theorem Breaks.eq_nil_or {rest : List Char} (h : Breaks rest) : rest = [] ∨ ∃ r, rest = ' ' :: r := by
  cases rest with
  | nil => exact .inl rfl
  | cons c rest =>
    obtain rfl : c = ' ' := by simpa using h c rfl
    exact .inr ⟨rest, rfl⟩

theorem spanMantissa_body (d : Decimal) {rest : List Char} (hrest : Breaks rest) :
    spanMantissa false (d.body ++ rest) = (d.body, rest) := by
  have hstop : ∀ dot, spanMantissa dot rest = ([], rest) := by
    intro dot
    rcases hrest.eq_nil_or with rfl | ⟨r, rfl⟩
    · rfl
    · cases dot <;> rfl
  unfold Decimal.body
  rw [List.append_assoc, spanMantissa_digits d.whole_digits]
  split
  · rw [List.nil_append, hstop]
  · have hpoint : spanMantissa false ('.' :: (d.frac ++ rest)) =
        ('.' :: (spanMantissa true (d.frac ++ rest)).1, (spanMantissa true (d.frac ++ rest)).2) := rfl
    rw [List.cons_append, hpoint, spanMantissa_digits d.frac_digits, hstop, List.append_nil]

/-- A decimal is cut off at a blank. -/
theorem spanNumber_chars (d : Decimal) {rest : List Char} (hrest : Breaks rest) :
    spanNumber (d.chars ++ rest) = some (d.chars, rest) := by
  have hexponent : spanExponent rest = ([], rest) := by
    rcases hrest.eq_nil_or with rfl | ⟨r, rfl⟩ <;> rfl
  have hany : d.body.any isDigit = true := by
    obtain ⟨c, cs, hcs, hc⟩ := d.exists_body_eq_cons
    rw [hcs, List.any_cons, hc, Bool.true_or]
  have hchars : (if d.neg then ['-'] else []) ++ d.body = d.chars := by
    unfold Decimal.chars
    cases d.neg <;> rfl
  unfold spanNumber
  simp only [spanSign_chars, spanMantissa_body d hrest, hany, hexponent, hchars, if_true, List.append_nil]

theorem exists_digit_of_spanNumber {cs text rest : List Char} (h : spanNumber cs = some (text, rest)) :
    ∃ c ∈ text, isDigit c := by
  unfold spanNumber at h
  simp only at h
  split at h
  · next hany =>
    obtain ⟨c, hc, hdigit⟩ := List.any_eq_true.1 hany
    cases h
    exact ⟨c, by simp [hc], hdigit⟩
  · cases h

/-! ## Tokens -/

/-- A token of path data: a command or a finite number. -/
def Token.Readable : Token Float → Prop
  | .command c => isCommandChar c = true
  | .number v => isFinite v = true

/-- How a token is read after it has been written: commands stay, numbers are what their text reads as. -/
inductive Token.Rendered : Token Float → Token Float → Prop
  | command (c : Char) : Rendered (.command c) (.command c)
  | number {v w : Float} (h : Scalar.read? (Scalar.fixed v) = some w) : Rendered (.number v) (.number w)

/-- The tokens of path data are readable. -/
theorem readable_of_scan {d : String} {fuel pos : Nat} {cs : List Char} {ts : List (Token Float)}
    (h : scan d fuel pos cs = .ok ts) : ∀ t ∈ ts, t.Readable := by
  have hcons : ∀ {t : Token Float} {r : Except Fault (List (Token Float))} {ts}, r.map (t :: ·) = .ok ts →
      t.Readable → (∀ {us}, r = .ok us → ∀ t ∈ us, t.Readable) → ∀ t ∈ ts, t.Readable := by
    rintro t (e | us) ts heq ht hus
    · cases heq
    · cases heq
      exact List.forall_mem_cons.2 ⟨ht, hus rfl⟩
  fun_induction @scan Float _ d fuel pos cs generalizing ts with
  | case1 | case2 =>
    cases h
    rintro t ⟨⟩
  | case3 fuel pos c cs hsep ih => exact ih h
  | case4 fuel pos c cs hsep hcommand ih => exact hcons h hcommand ih
  | case7 fuel pos c cs hsep hcommand hnumber text rest hspan v hread ih =>
    refine hcons h ?_ ih
    obtain ⟨c, hc, hdigit⟩ := exists_digit_of_spanNumber hspan
    have hok : Number.read (String.ofList text) = .ok v := by
      unfold Scalar.read? Except.toOption at hread
      split at hread
      · next w hw =>
        cases hread
        exact hw
      · cases hread
    unfold Number.read at hok
    rw [String.toList_ofList] at hok
    exact Number.isFinite_readChars hc hdigit hok
  | case5 | case6 | case8 => cases h

theorem readable_of_tokenize {d : String} {ts : List (Token Float)} (h : tokenize d = .ok ts) : ∀ t ∈ ts, t.Readable :=
  readable_of_scan h

/-- A command is no separator, and not written in numbers. -/
theorem of_isCommandChar {c : Char} (h : isCommandChar c) : isSeparator c = false ∧ Number.isWritten c = false := by
  unfold isCommandChar at h
  have hmem := List.contains_iff_mem.1 h
  fin_cases hmem <;> exact ⟨rfl, rfl⟩

theorem isWritten_of_isSeparator {c : Char} (h : isSeparator c) : Number.isWritten c = false := by
  simp only [isSeparator, Bool.or_eq_true, beq_iff_eq] at h
  rcases h with (((rfl | rfl) | rfl) | rfl) | rfl <;> rfl

section Scanning

variable {d : String} {fuel pos : Nat} {rest : List Char}

theorem scan_command {c : Char} (h : isCommandChar c) :
    @scan Float _ d (fuel + 1) pos (c :: rest) = (scan d fuel (pos + 1) rest).map (.command c :: ·) := by
  rw [scan, (of_isCommandChar h).1, if_neg (by decide), if_pos h]

theorem scan_blank : @scan Float _ d (fuel + 1) pos (' ' :: rest) = scan d fuel (pos + 1) rest := by
  rw [scan, if_pos (by decide)]

/-- What is written for a number is read from its first character on. -/
theorem scan_decimal {x : Decimal} {w : Float} (hw : Number.readChars x.chars = .ok w) (hrest : Breaks rest) :
    @scan Float _ d (fuel + 1) pos (x.chars ++ rest) =
      (scan d fuel (pos + x.chars.length) rest).map (.number w :: ·) := by
  have hread : (Scalar.read? (String.ofList x.chars) : Option Float) = some w := by
    show (Number.read (String.ofList x.chars)).toOption = some w
    rw [Number.read, String.toList_ofList, hw]
    rfl
  have hspan := spanNumber_chars x hrest
  obtain ⟨c, cs, hcs, hnumber⟩ : ∃ c cs, x.chars = c :: cs ∧
      (c == '-' || c == '+' || c == '.' || isDigit c) = true := by
    obtain ⟨c, cs, hcs, hc⟩ := x.exists_body_eq_cons
    unfold Decimal.chars
    cases x.neg with
    | true => exact ⟨_, _, rfl, rfl⟩
    | false => exact ⟨c, cs, hcs, by simp [hc]⟩
  have hwritten : Number.isWritten c := x.isWritten_of_mem (hcs ▸ List.mem_cons_self)
  have hsep : isSeparator c = false := by
    by_contra h
    rw [isWritten_of_isSeparator (Bool.not_eq_false _ ▸ h)] at hwritten
    cases hwritten
  have hcommand : isCommandChar c = false := by
    by_contra h
    rw [(of_isCommandChar (Bool.not_eq_false _ ▸ h)).2] at hwritten
    cases hwritten
  rw [hcs] at hspan hread ⊢
  rw [List.cons_append] at hspan ⊢
  rw [scan, hsep, hcommand, hnumber, if_neg (by decide), if_neg (by decide), if_pos rfl]
  simp only [hspan, hread]

/-- A token is read back from what is written for it. -/
theorem exists_scan_token {t : Token Float} (ht : t.Readable) (d : String) (fuel pos : Nat) (hrest : Breaks rest) :
    ∃ (u : Token Float) (p : Nat), t.Rendered u ∧
      scan d (fuel + 1) pos (t.text.toList ++ rest) = (scan d fuel p rest).map (u :: ·) := by
  cases t with
  | command c => exact ⟨.command c, pos + 1, .command c, by
      rw [← scan_command ht]
      simp [Token.text]⟩
  | number v =>
    obtain ⟨x, hx, hrange⟩ := Number.exists_decimal ht
    obtain ⟨w, hw⟩ := x.exists_readChars hrange
    have hread : Scalar.read? (Scalar.fixed v) = some w := by
      show (Number.read (Number.fixedText v)).toOption = some w
      rw [Number.read, hx, hw]
      rfl
    refine ⟨.number w, pos + x.chars.length, .number hread, ?_⟩
    rw [← scan_decimal hw hrest, ← hx]
    rfl

end Scanning

/-! ## Texts -/

theorem text_cons_cons (t u : Token Float) (ts : List (Token Float)) :
    (text (t :: u :: ts)).toList = t.text.toList ++ ' ' :: (text (u :: ts)).toList := by
  unfold text
  rw [List.map_cons, String.intercalate_cons_of_ne_nil (by simp)]
  simp

theorem text_singleton (t : Token Float) : text [t] = t.text := by
  simp [text]

/-- The characters of tokens are those of commands and numbers, and blanks. -/
theorem mem_text {c : Char} : ∀ {ts : List (Token Float)}, c ∈ (text ts).toList →
    c = ' ' ∨ ∃ t ∈ ts, c ∈ t.text.toList
  | [], h => by cases h
  | [t], h => .inr ⟨t, by simp, by rwa [text_singleton] at h⟩
  | t :: u :: ts, h => by
    rw [text_cons_cons] at h
    rcases List.mem_append.1 h with h | h
    · exact .inr ⟨t, by simp, h⟩
    rcases List.mem_cons.1 h with rfl | h
    · exact .inl rfl
    rcases mem_text h with rfl | ⟨v, hv, hc⟩
    · exact .inl rfl
    · exact .inr ⟨v, List.mem_cons_of_mem _ hv, hc⟩

theorem text_ne_nil {t : Token Float} (ht : t.Readable) : t.text.toList ≠ [] := by
  cases t with
  | command c => simp [Token.text]
  | number v =>
    obtain ⟨x, hx, -⟩ := Number.exists_decimal ht
    obtain ⟨c, cs, hcs, -⟩ := x.exists_body_eq_cons
    show (Number.fixedText v).toList ≠ []
    rw [hx]
    unfold Decimal.chars
    split <;> simp [hcs]

theorem exists_scan_text (d : String) : ∀ {ts : List (Token Float)}, (∀ t ∈ ts, t.Readable) →
    ∀ fuel pos : Nat, (text ts).toList.length ≤ fuel →
      ∃ us, scan d fuel pos (text ts).toList = .ok us ∧ List.Forall₂ Token.Rendered ts us
  | [], _, fuel, pos, _ => ⟨[], by cases fuel <;> rfl, .nil⟩
  | [t], h, fuel, pos, hfuel => by
    have ht := h t (by simp)
    have hpos := List.length_pos_iff.2 (text_ne_nil ht)
    rw [text_singleton] at hfuel ⊢
    obtain ⟨fuel, rfl⟩ : ∃ f, fuel = f + 1 := ⟨fuel - 1, by omega⟩
    obtain ⟨u, p, hu, hscan⟩ := exists_scan_token ht d fuel pos breaks_nil
    rw [List.append_nil] at hscan
    refine ⟨[u], ?_, .cons hu .nil⟩
    rw [hscan]
    cases fuel <;> rfl
  | t :: v :: ts, h, fuel, pos, hfuel => by
    obtain ⟨ht, hts⟩ := List.forall_mem_cons.1 h
    have hpos := List.length_pos_iff.2 (text_ne_nil ht)
    rw [text_cons_cons, List.length_append, List.length_cons] at hfuel
    -- One step for the token, one for the blank behind it.
    obtain ⟨fuel, rfl⟩ : ∃ f, fuel = f + 2 := ⟨fuel - 2, by omega⟩
    obtain ⟨u, p, hu, hscan⟩ := exists_scan_token ht d (fuel + 1) pos (breaks_blank (text (v :: ts)).toList)
    obtain ⟨us, hus, hrendered⟩ := exists_scan_text d hts fuel (p + 1) (by omega)
    refine ⟨u :: us, ?_, .cons hu hrendered⟩
    rw [text_cons_cons, hscan, scan_blank, hus]
    rfl

/-- What is written for tokens is tokenized as tokens like them. -/
theorem exists_tokenize_text {ts : List (Token Float)} (h : ∀ t ∈ ts, t.Readable) :
    ∃ us, tokenize (text ts) = .ok us ∧ List.Forall₂ Token.Rendered ts us := by
  unfold tokenize
  exact exists_scan_text _ h _ 0 (String.length_toList).le

/-- Plain tokens are written without groups. -/
theorem hasAny_text {ts : List (Token Float)} (h : ∀ t ∈ ts, t.Readable ∧ t.Plain) :
    Text.hasAny "r[]" (text ts) = false := by
  have hnot : ∀ c ∈ (text ts).toList, c ≠ 'r' ∧ c ≠ '[' ∧ c ≠ ']' := by
    intro c hc
    rcases mem_text hc with rfl | ⟨t, ht, hc⟩
    · decide
    obtain ⟨hreadable, hplain⟩ := h t ht
    cases t with
    | command k =>
      obtain rfl : c = k := by simpa [Token.text] using hc
      exact hplain
    | number v =>
      obtain ⟨x, hx, -⟩ := Number.exists_decimal hreadable
      have hc : c ∈ x.chars := by
        rw [← hx]
        exact hc
      have hwritten := x.isWritten_of_mem hc
      exact ⟨Number.ne_of_isWritten hwritten rfl, Number.ne_of_isWritten hwritten rfl,
        Number.ne_of_isWritten hwritten rfl⟩
  unfold Text.hasAny
  rw [List.any_eq_false]
  intro c hc
  obtain ⟨hr, hopen, hclose⟩ := hnot c hc
  simp [hr, hopen, hclose]

/-! ## Expansion -/

/-- The path data is tokenized, and its tokens write the tree. -/
def Writes (d : String) (g : Groups Float) : Prop := ∃ ts, tokenize d = .ok ts ∧ Written g ts

theorem expandRepeats_of_hasAny {d : String} (h : Text.hasAny "r[]" d) (limit : Int) :
    expandRepeats Float d limit =
      (tokenize d).bind fun (ts : List (Token Float)) =>
        (expandTokens d limit ts [] 0 []).bind fun us => .ok (text us) := by
  unfold expandRepeats
  rw [h]
  rfl

section Repeats

variable {d : String} {g : Groups Float} {limit : Int}

theorem exists_writes {s : String} (h : Text.hasAny "r[]" d) (hs : expandRepeats Float d limit = .ok s) :
    ∃ g, Writes d g := by
  rw [expandRepeats_of_hasAny h] at hs
  obtain ⟨ts, hts, hs⟩ := except_bind_eq_ok hs
  obtain ⟨us, hus, -⟩ := except_bind_eq_ok hs
  obtain ⟨g, hg⟩ := exists_written hus
  exact ⟨g, ts, hts, hg⟩

theorem expandRepeats_of_le (h : Text.hasAny "r[]" d) (hg : Writes d g) (hle : g.charge ≤ limit) :
    expandRepeats Float d limit = .ok (text g.expanded) := by
  obtain ⟨ts, hts, hwritten⟩ := hg
  have hexpanded : expandTokens d limit (ts ++ []) [] 0 [] = _ :=
    expandTokens_of_le hwritten [] [] [] (by omega)
  rw [List.append_nil] at hexpanded
  rw [expandRepeats_of_hasAny h, hts]
  show (expandTokens d limit ts [] 0 []).bind _ = _
  rw [hexpanded, expandTokens, List.append_nil, List.reverse_reverse]
  rfl

theorem expandRepeats_of_lt (h : Text.hasAny "r[]" d) (hg : Writes d g) (hlimit : 0 < limit) (hlt : limit < g.charge) :
    ∃ count, limit < count ∧ expandRepeats Float d limit = .error (.repeatLimit count limit) := by
  obtain ⟨ts, hts, hwritten⟩ := hg
  obtain ⟨count, hcount, hrefused⟩ : ∃ count, limit < count ∧
      expandTokens d limit (ts ++ []) [] 0 [] = .error (.repeatLimit count limit) :=
    expandTokens_of_lt hwritten [] [] [] hlimit hlimit.le (by omega)
  rw [List.append_nil] at hrefused
  refine ⟨count, hcount, ?_⟩
  rw [expandRepeats_of_hasAny h, hts]
  show (expandTokens d limit ts [] 0 []).bind _ = _
  rw [hrefused]
  rfl

theorem Writes.readable (hg : Writes d g) : ∀ t ∈ g.expanded, t.Readable ∧ t.Plain := by
  obtain ⟨ts, hts, hwritten⟩ := hg
  intro t ht
  obtain ⟨hmem, hplain⟩ := hwritten.of_mem_expanded ht
  exact ⟨readable_of_tokenize hts t hmem, hplain⟩

end Repeats

/-- Path data without groups stays as it is. Other path data is only expanded if its tokens write a tree. It is refused
for the limit exactly if the charge of the tree exceeds it, and otherwise becomes the text of what stands in place of
the groups, which is path data without groups and with these tokens, its numbers being read as they are written. -/
theorem expandRepeats_groups (d : String) {limit : Int} (hlimit : 0 < limit) :
    (Text.hasAny "r[]" d = false → expandRepeats Float d limit = .ok d) ∧
    (Text.hasAny "r[]" d = true →
      ((∃ s, expandRepeats Float d limit = .ok s) → ∃ g, Writes d g) ∧
      ∀ g, Writes d g →
        ((∃ count, expandRepeats Float d limit = .error (.repeatLimit count limit)) ↔ limit < g.charge) ∧
        (g.charge ≤ limit → ∃ s us, expandRepeats Float d limit = .ok s ∧ s = text g.expanded ∧
          Text.hasAny "r[]" s = false ∧ tokenize s = .ok us ∧ List.Forall₂ Token.Rendered g.expanded us)) := by
  refine ⟨fun h => ?_, fun h => ⟨fun ⟨s, hs⟩ => exists_writes h hs, fun g hg => ⟨⟨?_, fun hlt => ?_⟩, fun hle => ?_⟩⟩⟩
  · unfold expandRepeats
    rw [h]
    rfl
  · rintro ⟨count, hcount⟩
    by_contra hle
    rw [expandRepeats_of_le h hg (not_lt.1 hle)] at hcount
    cases hcount
  · obtain ⟨count, -, hrefused⟩ := expandRepeats_of_lt h hg hlimit hlt
    exact ⟨count, hrefused⟩
  · obtain ⟨us, hus, hrendered⟩ := exists_tokenize_text fun t ht => (hg.readable t ht).1
    exact ⟨_, us, expandRepeats_of_le h hg hle, rfl, hasAny_text hg.readable, hus, hrendered⟩

/-- A move, and twice two lines to the right and one down. -/
def nestedLines : Groups Float :=
  let one : Token Float := .number (Float.ofBits 0x3FF0000000000000)
  let two : Token Float := .number (Float.ofBits 0x4000000000000000)
  .token (.command 'M') <| .token one <| .token two <| .group 2 (.group 2 (.token (.command 'h') <| .token one .nil) <|
    .token (.command 'v') <| .token one .nil) .nil

theorem writes_nestedLines : Writes "M1 2r2[r2[h1]v1]" nestedLines := by
  have htwo : Counts (Float.ofBits 0x4000000000000000) 2 :=
    ⟨⟨⟨false, 2 ^ 52, -51⟩, by decide +kernel, by norm_num [Number.Exact.value]⟩, by norm_num⟩
  have hwritten : Written nestedLines _ := .command (by decide) <| .number <| .number <|
    .group htwo (.group htwo (.command (by decide) <| .number .nil) (.command (by decide) <| .number .nil)) .nil
  exact ⟨_, rfl, hwritten⟩

/-- Groups within groups are expanded within their charge, and refused below it. -/
theorem expandRepeats_nestedLines :
    (∃ us, expandRepeats Float "M1 2r2[r2[h1]v1]" 8 = .ok "M 1 2 h 1 h 1 v 1 h 1 h 1 v 1" ∧
      tokenize "M 1 2 h 1 h 1 v 1 h 1 h 1 v 1" = .ok us ∧ List.Forall₂ Token.Rendered nestedLines.expanded us) ∧
    ∃ count, expandRepeats Float "M1 2r2[r2[h1]v1]" 7 = .error (.repeatLimit count 7) := by
  have hcharge : nestedLines.charge = 8 := rfl
  have htext : text nestedLines.expanded = "M 1 2 h 1 h 1 v 1 h 1 h 1 v 1" := by decide +kernel
  have hwithin := ((expandRepeats_groups "M1 2r2[r2[h1]v1]" (by decide : (0 : Int) < 8)).2 rfl).2 _ writes_nestedLines
  have hbeyond := ((expandRepeats_groups "M1 2r2[r2[h1]v1]" (by decide : (0 : Int) < 7)).2 rfl).2 _ writes_nestedLines
  rw [hcharge] at hwithin hbeyond
  obtain ⟨s, us, hs, rfl, -, hus, hrendered⟩ := hwithin.2 (by decide)
  rw [htext] at hs hus
  exact ⟨⟨us, hs, hus, hrendered⟩, hbeyond.1.2 (by decide)⟩

end DiagramMarkup.Path
