import Mathlib.Data.List.DropRight
import DiagramMarkup.Files.Source
import DiagramMarkup.Proofs.Heads
import DiagramMarkup.Proofs.Words

/-!
# Recognising a drawing

Whether a text is a drawing is found by a loop that skips what looks like a comment, an instruction or a declaration.

1. Bytes are read as characters on both sides of a plain byte apart (`Text.ofBytes_append`).
2. The loop ends after at most as many turns as the text has characters (`exists_reads`), and what it finds is the
   answer (`reads_matchesChars`).
3. A text in front of a tag is skipped piece by piece (`Skipped`), and then the answer depends on the tag alone
   (`Skipped.reads_append`). If it is not, some tag is mistaken (`exists_mistaken`).
4. So bytes are skipped exactly if every tag behind them is recognised for what it is (`skipped_iff`).
-/

namespace DiagramMarkup

/-! ## Plain bytes -/

namespace Text

variable {a b : UInt8} {bs : List UInt8}

theorem not_isTail (h : a < 0x80) : isTail a = false := by
  have : ¬ 0x80 ≤ a := UInt8.not_le.2 h
  simp [isTail, this]

/-- A plain byte does not belong to the character in front of it. -/
theorem firstChar?_append (ha : a < 0x80) (b : UInt8) (bs cs : List UInt8) :
    firstChar? (b :: (bs ++ a :: cs)) = firstChar? (b :: bs) := by
  have htail := not_isTail ha
  unfold firstChar?
  -- At most three bytes behind the first are looked at.
  rcases bs with _ | ⟨c, _ | ⟨d, _ | ⟨e, bs⟩⟩⟩ <;> rcases cs with _ | ⟨x, _ | ⟨y, cs⟩⟩ <;> simp [htail]

theorem le_length_of_firstChar? {c : Char} {k : Nat} (h : firstChar? (b :: bs) = some (c, k)) : k ≤ bs.length := by
  unfold firstChar? at h
  split at h
  · cases h
  · next heq =>
    cases heq
    grind

theorem decodeFrom_append (ha : a < 0x80) (bs cs : List UInt8) {k : Nat} (hk : k ≤ bs.length) :
    decodeFrom k (bs ++ a :: cs) = decodeFrom k bs ++ decodeFrom 0 (a :: cs) := by
  induction bs generalizing k with
  | nil =>
    obtain rfl : k = 0 := Nat.le_zero.1 hk
    rfl
  | cons b bs ih =>
    cases k with
    | succ k => exact ih (Nat.le_of_succ_le_succ hk)
    | zero =>
      rw [List.cons_append, decodeFrom, firstChar?_append ha, decodeFrom]
      cases hfirst : firstChar? (b :: bs) with
      | none => exact congrArg (none :: ·) (ih (Nat.zero_le _))
      | some r => exact congrArg (some r.1 :: ·) (ih (le_length_of_firstChar? hfirst))

/-- What stands before a plain byte and what starts with it are read apart. -/
theorem ofBytes_append (ha : a < 0x80) (bs cs : List UInt8) : ofBytes (bs ++ a :: cs) = ofBytes bs ++ ofBytes (a :: cs) := by
  unfold ofBytes decode
  rw [decodeFrom_append ha bs cs (Nat.zero_le _), List.map_append]

theorem ofBytes_cons_lt (bs : List UInt8) : ofBytes (0x3C :: bs) = '<' :: ofBytes bs := rfl

end Text

namespace Files

open Text (trimStart breakOn)

/-! ## The loop -/

/-- What ends the piece that the text starts with, if it looks like one of a prolog. -/
def closer? (cs : List Char) : Option (List Char) :=
  if "<!--".toList.isPrefixOf cs then some "-->".toList
  else if "<?".toList.isPrefixOf cs || "<!".toList.isPrefixOf cs then some ['>'] else none

/-- The loop ends on the text after this many turns, with this answer. -/
inductive Reads : Nat → List Char → Bool → Prop
  | tag {cs : List Char} (hmark : closer? (trimStart cs) = none) : Reads 0 cs (opensDrawing (trimStart cs))
  | unclosed {cs mark : List Char} (hmark : closer? (trimStart cs) = some mark)
      (hbreak : breakOn mark (trimStart cs) = none) : Reads 0 cs false
  | skip {cs mark before rest : List Char} {n : Nat} {answer : Bool} (hmark : closer? (trimStart cs) = some mark)
      (hbreak : breakOn mark (trimStart cs) = some (before, rest)) (hrest : Reads n rest answer) :
      Reads (n + 1) cs answer

theorem matchesFuel_succ (fuel : Nat) (cs : List Char) :
    matchesFuel (fuel + 1) cs =
      match closer? (trimStart cs) with
      | none => opensDrawing (trimStart cs)
      | some mark =>
        match breakOn mark (trimStart cs) with
        | none => false
        | some (_, rest) => matchesFuel fuel rest := by
  rw [matchesFuel]
  unfold closer?
  split_ifs
  · dsimp only
    cases breakOn "-->".toList (trimStart cs) <;> rfl
  · dsimp only
    cases breakOn ['>'] (trimStart cs) <;> rfl
  · rfl

theorem closer?_eq_some {cs mark : List Char} (h : closer? cs = some mark) : mark = "-->".toList ∨ mark = ['>'] := by
  unfold closer? at h
  split_ifs at h
  · exact .inl (Option.some.inj h).symm
  · exact .inr (Option.some.inj h).symm

/-- Every mark ends with the same character. -/
theorem exists_closer {cs mark : List Char} (h : closer? cs = some mark) : ∃ us, mark = us ++ ['>'] := by
  rcases closer?_eq_some h with rfl | rfl
  · exact ⟨['-', '-'], rfl⟩
  · exact ⟨[], rfl⟩

theorem length_rest_lt {cs mark before rest : List Char} (hmark : closer? (trimStart cs) = some mark)
    (hbreak : breakOn mark (trimStart cs) = some (before, rest)) : rest.length < cs.length := by
  obtain ⟨us, rfl⟩ := exists_closer hmark
  have short : (trimStart cs).length ≤ cs.length := (List.dropWhile_sublist _).length_le
  rw [Text.eq_of_breakOn hbreak] at short
  simp only [List.length_append, List.length_cons, List.length_nil] at short
  omega

/-- The loop ends on every text. -/
theorem exists_reads (cs : List Char) : ∃ n answer, n ≤ cs.length ∧ Reads n cs answer := by
  cases hmark : closer? (trimStart cs) with
  | none => exact ⟨0, _, Nat.zero_le _, .tag hmark⟩
  | some mark =>
    cases hbreak : breakOn mark (trimStart cs) with
    | none => exact ⟨0, _, Nat.zero_le _, .unclosed hmark hbreak⟩
    | some r =>
      obtain ⟨before, rest⟩ := r
      have shorter := length_rest_lt hmark hbreak
      obtain ⟨n, answer, hn, hreads⟩ := exists_reads rest
      exact ⟨n + 1, answer, by omega, .skip hmark hbreak hreads⟩
termination_by cs.length

theorem Reads.matchesFuel_eq {n fuel : Nat} {cs : List Char} {answer : Bool} (h : Reads n cs answer) (hn : n < fuel) :
    matchesFuel fuel cs = answer := by
  induction h generalizing fuel with
  | tag hmark =>
    obtain ⟨fuel, rfl⟩ := Nat.exists_eq_add_of_lt hn
    rw [Nat.zero_add, matchesFuel_succ, hmark]
  | unclosed hmark hbreak =>
    obtain ⟨fuel, rfl⟩ := Nat.exists_eq_add_of_lt hn
    rw [Nat.zero_add, matchesFuel_succ, hmark]
    dsimp only
    rw [hbreak]
  | @skip cs mark before rest n answer hmark hbreak _ ih =>
    obtain ⟨fuel, rfl⟩ := Nat.exists_eq_succ_of_ne_zero (Nat.ne_of_gt (Nat.zero_lt_of_lt hn))
    rw [matchesFuel_succ, hmark]
    dsimp only
    rw [hbreak]
    exact ih (Nat.lt_of_succ_lt_succ hn)

theorem Reads.unique {m n : Nat} {cs : List Char} {a b : Bool} (h : Reads m cs a) (h' : Reads n cs b) : a = b := by
  have left : matchesFuel (m + n + 1) cs = a := h.matchesFuel_eq (by omega)
  have right : matchesFuel (m + n + 1) cs = b := h'.matchesFuel_eq (by omega)
  rw [← left, right]

/-- The loop ends on the trimmed text, and finds the answer. -/
theorem reads_matchesChars (cs : List Char) :
    ∃ n ≤ cs.length, Reads n (Text.trimChars cs) (matchesChars cs) := by
  obtain ⟨n, answer, hn, hreads⟩ := exists_reads (Text.trimChars cs)
  have short := (Text.trimChars_sublist cs).length_le
  refine ⟨n, hn.trans short, ?_⟩
  rwa [matchesChars, hreads.matchesFuel_eq (by omega)]

theorem Reads.matchesChars_eq {n : Nat} {cs : List Char} {answer : Bool} (h : Reads n (Text.trimChars cs) answer) :
    matchesChars cs = answer := by
  obtain ⟨m, -, hreads⟩ := reads_matchesChars cs
  exact hreads.unique h

/-! ## Texts that are skipped -/

/-- The loop comes to the end of the text and finds no tag in it. -/
inductive Skipped : List Char → Prop
  | blank {cs : List Char} (h : trimStart cs = []) : Skipped cs
  | skip {cs mark before rest : List Char} (hmark : closer? (trimStart cs) = some mark)
      (hbreak : breakOn mark (trimStart cs) = some (before, rest)) (hrest : Skipped rest) : Skipped cs

theorem trimStart_trimStart (cs : List Char) : trimStart (trimStart cs) = trimStart cs := List.dropWhile_idempotent _ _

/-- Blanks in front do not matter. -/
theorem skipped_congr {cs ds : List Char} (h : trimStart cs = trimStart ds) : Skipped cs ↔ Skipped ds := by
  have one : ∀ {cs ds}, trimStart cs = trimStart ds → Skipped cs → Skipped ds := by
    intro cs ds h hs
    cases hs with
    | blank hnil => exact .blank (h ▸ hnil)
    | skip hmark hbreak hrest => exact .skip (h ▸ hmark) (h ▸ hbreak) hrest
  exact ⟨one h, one h.symm⟩

theorem Reads.congr {n : Nat} {cs ds : List Char} {answer : Bool} (h : trimStart cs = trimStart ds)
    (hr : Reads n cs answer) : Reads n ds answer := by
  cases hr with
  | tag hmark =>
    rw [h] at hmark ⊢
    exact .tag hmark
  | unclosed hmark hbreak => exact .unclosed (h ▸ hmark) (h ▸ hbreak)
  | skip hmark hbreak hrest => exact .skip (h ▸ hmark) (h ▸ hbreak) hrest

/-- A mark that starts a text starts it before the next tag. -/
theorem isPrefixOf_append {mark : List Char} (hmark : '<' ∉ mark) (cs ds : List Char) :
    mark.isPrefixOf (cs ++ '<' :: ds) = mark.isPrefixOf cs := by
  induction mark generalizing cs with
  | nil => simp
  | cons m mark ih =>
    rw [List.mem_cons, not_or] at hmark
    cases cs with
    | nil => simp [List.isPrefixOf, Ne.symm hmark.1]
    | cons c cs => rw [List.cons_append, List.isPrefixOf, List.isPrefixOf, ih hmark.2]

theorem closer?_append {cs : List Char} (h : cs ≠ []) (ds : List Char) : closer? (cs ++ '<' :: ds) = closer? cs := by
  obtain ⟨c, cs, rfl⟩ := List.exists_cons_of_ne_nil h
  have skip : ∀ mark, '<' ∉ mark →
      ('<' :: mark).isPrefixOf (c :: cs ++ '<' :: ds) = ('<' :: mark).isPrefixOf (c :: cs) := by
    intro mark hmark
    rw [List.cons_append, List.isPrefixOf, List.isPrefixOf, isPrefixOf_append hmark]
  unfold closer?
  rw [show "<!--".toList = '<' :: ['!', '-', '-'] from rfl, show "<?".toList = '<' :: ['?'] from rfl,
    show "<!".toList = '<' :: ['!'] from rfl, skip _ (by decide), skip _ (by decide), skip _ (by decide)]

theorem trimStart_behind (p t : List Char) : trimStart (p ++ '<' :: t) = trimStart p ++ '<' :: t :=
  Text.dropWhile_stop rfl p t

/-- A tag behind a text does not change what the text starts with. -/
theorem closer?_behind {p : List Char} (h : trimStart p ≠ []) (t : List Char) :
    closer? (trimStart (p ++ '<' :: t)) = closer? (trimStart p) := by
  rw [trimStart_behind, closer?_append h]

theorem breakOn_behind {p us before rest : List Char} (h : breakOn (us ++ ['>']) (trimStart p) = some (before, rest))
    (t : List Char) : breakOn (us ++ ['>']) (trimStart (p ++ '<' :: t)) = some (before, rest ++ '<' :: t) := by
  rw [trimStart_behind, Text.breakOn_append (by simp) h]

theorem ne_nil_of_closer? {cs mark : List Char} (h : closer? cs = some mark) : cs ≠ [] := by
  rintro rfl
  cases h

/-- A tag is read the same behind a text that is skipped. -/
theorem Skipped.reads_append {p t : List Char} (hp : Skipped p) {n : Nat} {answer : Bool}
    (ht : Reads n ('<' :: t) answer) : ∃ m, Reads m (p ++ '<' :: t) answer := by
  induction hp with
  | blank h => exact ⟨n, ht.congr (by rw [trimStart_behind, h]; rfl)⟩
  | skip hmark hbreak _ ih =>
    obtain ⟨m, hm⟩ := ih
    obtain ⟨us, rfl⟩ := exists_closer hmark
    have hmark' := closer?_behind (ne_nil_of_closer? hmark) t
    exact ⟨m + 1, .skip (hmark'.trans hmark) (breakOn_behind hbreak t) hm⟩

/-! ## Texts that are not skipped -/

theorem opensDrawing_eq_true_iff {cs : List Char} :
    opensDrawing cs = true ↔ ∃ c rest, cs = '<' :: 's' :: 'v' :: 'g' :: c :: rest ∧ endsTagName c = true := by
  constructor
  · intro h
    unfold opensDrawing at h
    split at h
    · exact ⟨_, _, rfl, h⟩
    · cases h
  · rintro ⟨c, rest, rfl, h⟩
    exact h

/-- The bracket of a tag does not end the name of the tag in front of it. -/
theorem opensDrawing_append {cs : List Char} (h : cs ≠ []) (ds : List Char) :
    opensDrawing (cs ++ '<' :: ds) = opensDrawing cs := by
  rw [Bool.eq_iff_iff, opensDrawing_eq_true_iff, opensDrawing_eq_true_iff]
  constructor
  · rintro ⟨c, rest, heq, hc⟩
    rcases cs with _ | ⟨a, _ | ⟨b, _ | ⟨d, _ | ⟨e, _ | ⟨f, cs⟩⟩⟩⟩⟩
    · exact absurd rfl h
    · simp at heq
    · simp at heq
    · simp at heq
    · have hparts : a = '<' ∧ b = 's' ∧ d = 'v' ∧ e = 'g' ∧ '<' = c ∧ ds = rest := by simpa using heq
      obtain ⟨-, -, -, -, rfl, -⟩ := hparts
      cases hc
    · exact ⟨f, cs, by simp_all, by simp_all⟩
  · rintro ⟨c, rest, rfl, hc⟩
    exact ⟨c, rest ++ '<' :: ds, rfl, hc⟩

/-- The tag of a drawing. -/
def drawingTag : List Char := ['s', 'v', 'g', '>']

/-- The tag of something else. -/
def otherTag : List Char := ['a', '>']

/-- A mark that a text does not hold ends only where the tag behind the text ends. -/
theorem rest_eq_nil {q us before rest : List Char} (hnone : breakOn (us ++ ['>']) q = none)
    (h : breakOn (us ++ ['>']) (q ++ '<' :: drawingTag) = some (before, rest)) : rest = [] := by
  have held : ∀ bs, q ≠ before ++ (us ++ ['>']) ++ bs := by
    rintro bs rfl
    exact Text.breakOn_ne_none (by simp) before bs hnone
  by_contra hrest
  obtain ⟨r, last, hlast⟩ := rest.eq_nil_or_concat.resolve_left hrest
  rw [List.concat_eq_append] at hlast
  have heq : (q ++ ['<', 's', 'v', 'g']) ++ ['>'] = (before ++ (us ++ ['>']) ++ r) ++ [last] := by
    rw [List.append_assoc _ r, ← hlast, ← Text.eq_of_breakOn h, List.append_assoc]
    rfl
  obtain ⟨heq, -⟩ := List.append_inj' heq rfl
  rcases List.append_eq_append_iff.1 heq with ⟨as, hmark, hsvg⟩ | ⟨bs, hq, -⟩
  · rcases as.eq_nil_or_concat with rfl | ⟨as, x, rfl⟩
    · exact held [] (by simpa using hmark.symm)
    · -- The last character of the mark would be one of the tag.
      rw [List.concat_eq_append, ← List.append_assoc, ← List.append_assoc] at hmark
      obtain rfl : '>' = x := by simpa using (List.append_inj' hmark rfl).2
      have hmem : '>' ∈ ['<', 's', 'v', 'g'] := hsvg ▸ by simp
      exact absurd hmem (by decide)
  · exact held bs hq

/-- A piece that is not closed is not closed by a tag in the right place either. -/
theorem exists_reads_unclosed {p mark : List Char} (hmark : closer? (trimStart p) = some mark)
    (hnone : breakOn mark (trimStart p) = none) : ∃ n, Reads n (p ++ '<' :: drawingTag) false := by
  have hclose := (closer?_behind (ne_nil_of_closer? hmark) drawingTag).trans hmark
  obtain ⟨us, rfl⟩ := exists_closer hmark
  cases hbreak : breakOn (us ++ ['>']) (trimStart (p ++ '<' :: drawingTag)) with
  | none => exact ⟨0, .unclosed hclose hbreak⟩
  | some r =>
    obtain ⟨before, rest⟩ := r
    obtain rfl := rest_eq_nil hnone (trimStart_behind p _ ▸ hbreak)
    exact ⟨1, .skip hclose hbreak (.tag rfl)⟩

/-- Behind a text that starts with a tag, the answer is that for this tag. -/
theorem reads_behind_tag {p : List Char} (hne : trimStart p ≠ []) (hmark : closer? (trimStart p) = none)
    (t : List Char) : Reads 0 (p ++ '<' :: t) (opensDrawing (trimStart p)) := by
  rw [← opensDrawing_append hne t, ← trimStart_behind]
  exact .tag ((closer?_behind hne t).trans hmark)

/-- Behind a text that is not skipped, one of two tags is mistaken for one of the other kind. -/
theorem exists_mistaken {p : List Char} (hp : ¬ Skipped p) :
    ∃ t, (t = drawingTag ∨ t = otherTag) ∧ ∃ n, Reads n (p ++ '<' :: t) (!opensDrawing ('<' :: t)) := by
  cases hmark : closer? (trimStart p) with
  | none =>
    have hread := reads_behind_tag (fun hnil => hp (.blank hnil)) hmark
    cases hopens : opensDrawing (trimStart p) with
    | true =>
      rw [hopens] at hread
      exact ⟨otherTag, .inr rfl, 0, hread _⟩
    | false =>
      rw [hopens] at hread
      exact ⟨drawingTag, .inl rfl, 0, hread _⟩
  | some mark =>
    cases hbreak : breakOn mark (trimStart p) with
    | none => exact ⟨drawingTag, .inl rfl, exists_reads_unclosed hmark hbreak⟩
    | some r =>
      obtain ⟨before, rest⟩ := r
      have shorter := length_rest_lt hmark hbreak
      obtain ⟨us, rfl⟩ := exists_closer hmark
      obtain ⟨t, ht, n, hreads⟩ := exists_mistaken fun hrest => hp (.skip hmark hbreak hrest)
      have hmark' := closer?_behind (ne_nil_of_closer? hmark) t
      exact ⟨t, ht, n + 1, .skip (hmark'.trans hmark) (breakOn_behind hbreak t) hreads⟩
termination_by p.length

/-! ## Tags behind a text -/

/-- The bracket in front starts a tag. -/
def StartsTag (t : List Char) : Prop := t.head? ≠ some '!' ∧ t.head? ≠ some '?'

instance (t : List Char) : Decidable (StartsTag t) := inferInstanceAs (Decidable (_ ∧ _))

theorem closer?_tag {t : List Char} (h : StartsTag t) : closer? ('<' :: t) = none := by
  cases t with
  | nil => rfl
  | cons c t =>
    have hc : c ≠ '!' ∧ c ≠ '?' := by simpa [StartsTag] using h
    simp [closer?, hc.1.symm, hc.2.symm]

/-- The tag of a drawing, with an end of the name, and more than blanks behind the name. -/
def NamesDrawing (t : List Char) : Prop :=
  ∃ c rest, t = 's' :: 'v' :: 'g' :: c :: rest ∧ endsTagName c = true ∧ ∃ d ∈ c :: rest, Text.isBlank d = false

/-- A tag is trimmed by taking off the blanks behind it. -/
theorem exists_trimmed_tag (t : List Char) :
    ∃ u b, t = u ++ b ∧ (∀ c ∈ b, Text.isBlank c) ∧ (∀ c ∈ u.getLast?, Text.isBlank c = false) ∧
      Text.trimChars ('<' :: u) = '<' :: u := by
  obtain ⟨u, b, rfl, hb, hu⟩ := Text.exists_append_blanks t
  have bracket : Text.Tight ['<'] := ⟨by simp [Text.isBlank], by simp [Text.isBlank]⟩
  exact ⟨u, b, rfl, hb, hu, (bracket.append (by simp) hu).trimChars_eq⟩

/-- What ends the name of a tag is taken off as well, if only blanks follow. -/
theorem opensDrawing_iff_of_trimmed {u b : List Char} (hb : ∀ c ∈ b, Text.isBlank c)
    (hu : ∀ c ∈ u.getLast?, Text.isBlank c = false) : opensDrawing ('<' :: u) = true ↔ NamesDrawing (u ++ b) := by
  rw [opensDrawing_eq_true_iff]
  constructor
  · rintro ⟨c, rest, heq, hc⟩
    obtain rfl : u = 's' :: 'v' :: 'g' :: c :: rest := (List.cons.inj heq).2
    have hlast : Text.isBlank ((c :: rest).getLast (by simp)) = false :=
      hu _ (by simp [List.getLast?_eq_some_getLast])
    exact ⟨c, rest ++ b, rfl, hc, _, List.mem_append_left b (List.getLast_mem (List.cons_ne_nil c rest)), hlast⟩
  · rintro ⟨c, rest, heq, hc, d, hd, hblank⟩
    have hnot : d ∉ b := fun hmem => by simp [hb d hmem] at hblank
    rcases u with _ | ⟨x, _ | ⟨y, _ | ⟨z, _ | ⟨c', u⟩⟩⟩⟩
    · exact absurd (by simp_all) hnot
    · exact absurd (by simp_all) hnot
    · exact absurd (by simp_all) hnot
    · exact absurd (by simp_all) hnot
    · exact ⟨c', u, by simp_all, by simp_all⟩

/-- The answer for a tag behind a text is found behind the blanks in front. -/
theorem Reads.matchesChars_behind {p t : List Char} {n : Nat} {answer : Bool} (htrim : Text.trimChars ('<' :: t) = '<' :: t)
    (h : Reads n (p ++ '<' :: t) answer) : matchesChars (p ++ '<' :: t) = answer := by
  have trimmed : Text.trimChars (p ++ '<' :: t) = trimStart p ++ '<' :: t := by
    rw [Text.trimChars_append rfl, htrim]
  refine Reads.matchesChars_eq (n := n) ?_
  rw [trimmed]
  exact h.congr (by rw [trimStart_behind, trimStart_behind, trimStart_trimStart])

theorem matchesChars_append_blanks (cs : List Char) {b : List Char} (hb : ∀ c ∈ b, Text.isBlank c) :
    matchesChars (cs ++ b) = matchesChars cs := by
  obtain ⟨n, -, hreads⟩ := reads_matchesChars cs
  exact (Text.trimChars_append_blanks cs hb ▸ hreads : Reads n (Text.trimChars (cs ++ b)) _).matchesChars_eq

/-- Behind a text that is skipped every tag is recognised for what it is. -/
theorem Skipped.matchesChars_iff {p t : List Char} (hp : Skipped p) (ht : StartsTag t) :
    matchesChars (p ++ '<' :: t) = true ↔ NamesDrawing t := by
  obtain ⟨u, b, rfl, hb, hu, htrim⟩ := exists_trimmed_tag t
  have starts : StartsTag u := by
    cases u with
    | nil => simp [StartsTag]
    | cons c u => exact ht
  have htag : Reads 0 ('<' :: u) (opensDrawing ('<' :: u)) := .tag (closer?_tag starts)
  obtain ⟨m, hm⟩ := hp.reads_append htag
  rw [← opensDrawing_iff_of_trimmed hb hu, ← hm.matchesChars_behind htrim, ← List.cons_append, ← List.append_assoc,
    matchesChars_append_blanks _ hb]

/-- A text is skipped if a tag of either kind behind it is recognised. -/
theorem skipped_of_matchesChars {p : List Char} (hdrawing : matchesChars (p ++ '<' :: drawingTag) = true)
    (hother : matchesChars (p ++ '<' :: otherTag) = false) : Skipped p := by
  by_contra hp
  obtain ⟨t, rfl | rfl, n, hreads⟩ := exists_mistaken hp
  · rw [hreads.matchesChars_behind rfl] at hdrawing
    cases hdrawing
  · rw [hreads.matchesChars_behind rfl] at hother
    cases hother

/-! ## Bytes -/

/-- The answer for bytes is that for their characters, where an opening bracket stands alone. -/
theorem matchesBytes_append (p t : List UInt8) :
    matchesBytes (p ++ 0x3C :: t) = matchesChars (Text.ofBytes p ++ '<' :: Text.ofBytes t) := by
  rw [matchesBytes, Text.ofBytes_append (by decide), Text.ofBytes_cons_lt]

/-- Bytes are skipped exactly if every tag behind them is recognised for what it is. -/
theorem skipped_iff {p : List UInt8} :
    Skipped (Text.ofBytes p) ↔
      ∀ t, StartsTag (Text.ofBytes t) → (matchesBytes (p ++ 0x3C :: t) = true ↔ NamesDrawing (Text.ofBytes t)) := by
  refine ⟨fun hp t ht => matchesBytes_append p t ▸ hp.matchesChars_iff ht, fun h => ?_⟩
  have hdrawing := h [0x73, 0x76, 0x67, 0x3E] (by decide)
  have hother := h [0x61, 0x3E] (by decide)
  rw [matchesBytes_append] at hdrawing hother
  refine skipped_of_matchesChars (hdrawing.2 ⟨'>', [], rfl, rfl, '>', by simp, rfl⟩) (Bool.eq_false_iff.2 fun ha => ?_)
  obtain ⟨c, rest, heq, -⟩ := hother.1 ha
  cases heq

/-- The loop ends on the bytes, and finds the answer. -/
theorem reads_matchesBytes (bs : List UInt8) :
    ∃ n ≤ (Text.ofBytes bs).length, Reads n (Text.trimChars (Text.ofBytes bs)) (matchesBytes bs) :=
  reads_matchesChars _

end Files
end DiagramMarkup
