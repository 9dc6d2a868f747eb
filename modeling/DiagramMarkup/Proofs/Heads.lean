import DiagramMarkup.Position.Ref
import DiagramMarkup.Proofs.Words

/-!
# Position values and their arguments

A position value names a target and a spot on it, and goes on with arguments.

1. What a value says is read from the left: the target ends before the spot, and the spot before the arguments
   (`Ref.splitTarget_append`, `Ref.exists_splitSpot_append`).
2. So a value with a target has a head, which is read in the same way whatever arguments stand behind it
   (`Ref.exists_head`).
-/

namespace DiagramMarkup

/-! ## Anchors -/

section Anchors

variable {α : Type} [Scalar α] {w b : List Char}

theorem Text.trimChars_append_blanks (w : List Char) (hb : ∀ c ∈ b, Text.isBlank c) :
    Text.trimChars (w ++ b) = Text.trimChars w := by
  unfold Text.trimChars Text.trimStart
  rw [List.dropWhile_append]
  split
  · next h => rw [List.isEmpty_iff.1 h, List.dropWhile_eq_nil_iff.2 hb]
  · rw [List.reverse_append, List.dropWhile_append_of_pos fun c hc => hb c (List.mem_reverse.1 hc)]

/-- Blanks at the end of a length are not read. -/
theorem Length.parse_append_blanks (w : List Char) (hb : ∀ c ∈ b, Text.isBlank c) :
    (Length.parse (String.ofList (w ++ b)) : Except Fault (Length α)) = Length.parse (String.ofList w) := by
  have htrim : Text.trim (String.ofList (w ++ b)) = Text.trim (String.ofList w) := by
    unfold Text.trim
    rw [String.toList_ofList, String.toList_ofList, Text.trimChars_append_blanks w hb]
  unfold Length.parse
  rw [htrim]

/-- The name of a location does not end in a blank. -/
theorem Loc.last_not_blank {s : String} {l : Loc} (h : ofName? s = some l) :
    ∀ c ∈ s.toList.getLast?, Text.isBlank c = false := by
  unfold ofName? at h
  split at h
  case h_16 => cases h
  all_goals
    rintro c ⟨⟩
    decide

/-- Blanks at the end of an anchor are not read. -/
theorem Anchor.parse_of_append_blanks {a : Anchor α} (hb : ∀ c ∈ b, Text.isBlank c)
    (h : Anchor.parse (String.ofList (w ++ b)) = .ok a) : Anchor.parse (String.ofList w) = .ok a := by
  have hsep : ":".toList = [':'] := rfl
  unfold Anchor.parse Text.cut at h ⊢
  rw [hsep] at h ⊢
  simp only [String.toList_ofList] at h ⊢
  by_cases hcolon : ':' ∈ w
  · obtain ⟨u, v, rfl, hu⟩ := List.eq_append_cons_of_mem hcolon
    rw [List.append_assoc, List.cons_append] at h
    simp only [Text.breakOn_singleton hu, Option.map_some, Length.parse_append_blanks v hb] at h ⊢
    exact h
  · -- Without a length the anchor is a name, which does not end in a blank.
    have hnot : ':' ∉ w ++ b := by
      rw [List.mem_append, not_or]
      exact ⟨hcolon, fun hmem => absurd (hb _ hmem) (by decide)⟩
    rcases List.eq_nil_or_concat b with rfl | ⟨b, c, rfl⟩
    · rwa [List.append_nil] at h
    · simp only [Text.breakOn_eq_none hnot, Option.map_none, Loc.parse] at h
      cases hl : Loc.ofName? (String.ofList (w ++ b.concat c)) with
      | none =>
        rw [hl] at h
        cases h
      | some l =>
        have hlast := Loc.last_not_blank hl c (by simp)
        rw [hb c (by simp)] at hlast
        cases hlast

end Anchors

namespace Position.Ref

variable {α : Type} [Scalar α] {s : String}

/-! ## Targets and spots -/

/-- Characters of identifiers are visible. -/
theorem visible_of_isIdChar {c : Char} (h : isIdChar c) : 33 ≤ c.toNat ∧ c.toNat ≤ 126 := by
  have hle : ∀ {a b : Char}, a ≤ b ↔ a.toNat ≤ b.toNat := Iff.rfl
  simp only [isIdChar, Bool.or_eq_true, Bool.and_eq_true, decide_eq_true_eq, beq_iff_eq, hle] at h
  rcases h with ((((rfl | rfl) | rfl) | h) | h) | h
  · decide
  · decide
  · decide
  all_goals
    simp only [Char.reduceToNat] at h
    omega

theorem not_isBlank_of_visible {c : Char} (h : 33 ≤ c.toNat ∧ c.toNat ≤ 126) : Text.isBlank c = false := by
  unfold Text.isBlank
  simp only [Bool.or_eq_false_iff, Bool.and_eq_false_iff, decide_eq_false_iff_not, beq_eq_false_iff_ne]
  omega

theorem not_isIdChar_of_isGap {c : Char} (h : isGap c) : isIdChar c = false := by
  simp only [isGap, Bool.or_eq_true, beq_iff_eq] at h
  rcases h with ((rfl | rfl) | rfl) | rfl <;> decide

theorem ends_isIdChar {tail : List Char} (h : Text.Ends (!isGap ·) tail) : Text.Ends isIdChar tail :=
  fun c hc => not_isIdChar_of_isGap (by simpa using h c hc)

/-- A target ends where no character of an identifier follows. -/
theorem splitTarget_append {t : String} {rest : List Char} (h : splitTarget s = .ok (some t, rest)) :
    s.toList = t.toList ++ rest ∧ t.toList ≠ [] ∧ Text.Tight t.toList ∧
      ∀ tail, Text.Ends isIdChar tail → splitTarget (String.ofList (t.toList ++ tail)) = .ok (some t, tail) := by
  unfold splitTarget at h
  split at h
  · next r hs =>
    cases h
    exact ⟨hs, by decide, ⟨by rintro c ⟨⟩; decide, by rintro c ⟨⟩; decide⟩,
      fun tail _ => by unfold splitTarget; simp⟩
  · next r hs =>
    simp only at h
    split at h
    · cases h
    · next hne =>
      cases h
      have hid : ∀ c ∈ r.takeWhile isIdChar, isIdChar c := fun c hc => List.mem_takeWhile_imp hc
      refine ⟨?_, by simp, ⟨?_, ?_⟩, ?_⟩
      · rw [hs, String.toList_ofList, List.cons_append, List.takeWhile_append_dropWhile]
      · intro c hc
        rw [String.toList_ofList] at hc
        cases hc
        decide
      · intro c hc
        rw [String.toList_ofList] at hc
        rcases List.mem_cons.1 (List.mem_of_mem_getLast? hc) with rfl | hc
        · decide
        · exact not_isBlank_of_visible (visible_of_isIdChar (hid c hc))
      · intro tail htail
        unfold splitTarget
        simp only [String.toList_ofList, List.cons_append, htail.takeWhile hid, htail.dropWhile hid]
        rw [if_neg hne]
  · cases h

theorem not_isBlank_of_ofLetter? {c : Char} {side : Side} (h : Side.ofLetter? c = some side) :
    Text.isBlank c = false := by
  unfold Side.ofLetter? at h
  split at h <;> first | decide | cases h

/-- In front of a gap stands no spot. -/
theorem splitSpot_gap (s : String) {tail : List Char} (htail : Text.Ends (!isGap ·) tail) :
    splitSpot s tail = .ok ((.implied : Spot α), tail) := by
  cases tail with
  | nil => rfl
  | cons c tail =>
    have hgap : isGap c := by simpa using htail c rfl
    simp only [isGap, Bool.or_eq_true, beq_iff_eq] at hgap
    rcases hgap with ((rfl | rfl) | rfl) | rfl <;> rfl

/-- A spot ends where a gap follows. Blanks of other kinds at its end may be left out. -/
theorem exists_splitSpot_append {spot : Spot α} {cs rest : List Char} (h : splitSpot s cs = .ok (spot, rest)) :
    ∃ body blanks, cs = body ++ (blanks ++ rest) ∧ (∀ c ∈ blanks, Text.isBlank c) ∧
      (∀ c ∈ body.getLast?, Text.isBlank c = false) ∧
      ∀ s' tail, Text.Ends (!isGap ·) tail →
        Text.Ends isIdChar (body ++ tail) ∧ splitSpot s' (body ++ tail) = .ok (spot, tail) := by
  unfold splitSpot at h
  split at h
  · cases h
    exact ⟨[], [], rfl, by simp, by simp, fun s' tail htail => ⟨ends_isIdChar htail, splitSpot_gap s' htail⟩⟩
  · next r =>
    split at h
    · next a ha =>
      cases h
      obtain ⟨u, b, hw, hb, hu⟩ := Text.exists_append_blanks (r.takeWhile (!isGap ·))
      rw [hw] at ha
      refine ⟨'@' :: u, b, ?_, hb, ?_, fun s' tail htail => ⟨fun c hc => ?_, ?_⟩⟩
      · rw [List.cons_append, ← List.append_assoc, ← hw, List.takeWhile_append_dropWhile]
      · cases u with
        | nil => simp only [List.getLast?_singleton, Option.mem_some_iff, forall_eq']; decide
        | cons c u => rwa [List.getLast?_cons_cons]
      · cases hc
        decide
      · have hplain : ∀ c ∈ u, (!isGap c) = true := fun c hc =>
          List.mem_takeWhile_imp (p := (!isGap ·)) (l := r) (hw ▸ List.mem_append_left b hc)
        simp only [List.cons_append, splitSpot, htail.takeWhile hplain, htail.dropWhile hplain,
          Anchor.parse_of_append_blanks hb ha]
    · cases h
  · next c r hat =>
    split at h
    · next hbar =>
      split at h
      · next d tail =>
        split at h
        · next side hside =>
          split at h
          · cases h
            refine ⟨[c, d], [], rfl, by simp, ?_, fun s' tail htail => ⟨?_, ?_⟩⟩
            · intro e he
              cases he
              exact not_isBlank_of_ofLetter? hside
            · intro e he
              cases he
              simp only [Bool.or_eq_true, beq_iff_eq] at hbar
              rcases hbar with rfl | rfl <;> decide
            · have hgap : (tail.head?.map isGap).getD true = true := by
                cases tail with
                | nil => rfl
                | cons e tail => simpa using htail e rfl
              simp only [Bool.or_eq_true, beq_iff_eq] at hbar
              rcases hbar with rfl | rfl <;> simp [splitSpot, hside, hgap]
          · cases h
        · cases h
      · cases h
    · split at h
      · next hgap =>
        cases h
        exact ⟨[], [], rfl, by simp, by simp, fun s' tail htail => ⟨ends_isIdChar htail, splitSpot_gap s' htail⟩⟩
      · cases h

/-! ## Heads -/

variable {v : String} {ref : Ref α}

theorem parse_cases (h : parse v = .ok ref) :
    ∃ cs rest, splitTarget (Text.trim v) = .ok (ref.target, cs) ∧
      spotOf (Text.trim v) ref.target cs = .ok (ref.spot, rest) ∧ ref.args = Numbers.split (String.ofList rest) ∧
      ∀ side, ref.spot = .beside side → ref.args.length ≤ 1 := by
  unfold parse at h
  obtain ⟨⟨target, cs⟩, htarget, h⟩ := except_bind_eq_ok h
  obtain ⟨⟨spot, rest⟩, hspot, h⟩ := except_bind_eq_ok h
  simp only at h hspot
  split at h
  · cases h
  · next hgaps =>
    cases h
    refine ⟨cs, rest, htarget, hspot, rfl, fun side hside => ?_⟩
    simp only at hside hgaps ⊢
    rcases hargs : Numbers.split (String.ofList rest) with _ | ⟨a, _ | ⟨b, args⟩⟩
    · exact Nat.zero_le 1
    · exact le_rfl
    · exact absurd hargs (hgaps side a b args hside)

theorem parse_of_parts {target : Option String} {spot : Spot α} {cs rest : List Char}
    (htarget : splitTarget (Text.trim v) = .ok (target, cs)) (hspot : spotOf (Text.trim v) target cs = .ok (spot, rest))
    (hgap : ∀ side, spot = .beside side → (Numbers.split (String.ofList rest)).length ≤ 1) :
    parse v = .ok ⟨target, spot, Numbers.split (String.ofList rest)⟩ := by
  unfold parse
  simp only [htarget, bind, Except.bind, hspot]
  split
  · next side a b args hargs =>
    have hlen := hgap side rfl
    rw [hargs] at hlen
    simp at hlen
  · rfl

/-- Arguments that stand behind the head of a value. -/
theorem exists_arguments {args : List String} (hargs : ∀ w ∈ args, Numbers.IsPart w) (head : String) :
    ∃ tail, (" ".intercalate (head :: args)).toList = head.toList ++ tail ∧ Text.Ends (!isGap ·) tail ∧
      Numbers.split (String.ofList tail) = args ∧ ∀ c ∈ tail.getLast?, Text.isBlank c = false := by
  have hwords : ∀ w ∈ args.map String.toList, Text.IsWord Numbers.isSeparator w := List.forall_mem_map.2 hargs
  cases args with
  | nil => exact ⟨[], by simp, by simp [Text.Ends], rfl, by simp⟩
  | cons w ws =>
    refine ⟨' ' :: [' '].intercalate ((w :: ws).map String.toList), ?_, ?_, ?_, ?_⟩
    · rw [String.toList_intercalate, List.map_cons, List.map_cons, List.intercalate_cons_cons, List.append_assoc]
      rfl
    · intro c hc
      cases hc
      decide
    · have hblank : ∀ c ∈ [' '], Numbers.isSeparator c := by
        simp [Numbers.isSeparator, Text.isBlank]
      exact (Numbers.split_separators_append hblank _).trans (Numbers.split_ofList_joined hblank hargs)
    · intro c hc
      have hlast := Text.last_joined [' '] hwords
      have hw := (hwords _ List.mem_cons_self).1
      have hne : [' '].intercalate ((w :: ws).map String.toList) ≠ [] := by
        cases ws with
        | nil => simpa using hw
        | cons w' ws => simp [List.intercalate_cons_cons, hw]
      rw [List.getLast?_cons_of_ne_nil hne] at hc
      exact Numbers.not_isBlank (hlast c hc)

/-- A value with a target has a head, which is read in the same way with any arguments behind it. -/
theorem exists_head {t : String} (h : parse v = .ok ref) (ht : ref.target = some t) :
    ∃ (head : String) (rest : List Char), (Text.trim v).toList = head.toList ++ rest ∧
      ref.args = Numbers.split (String.ofList rest) ∧
      ∀ args : List String, (∀ w ∈ args, Numbers.IsPart w) → (∀ side, ref.spot = .beside side → args.length ≤ 1) →
        parse (" ".intercalate (head :: args)) = .ok { ref with args := args } := by
  obtain ⟨cs, rest, htarget, hspot, hargs, -⟩ := parse_cases h
  rw [ht] at htarget hspot
  obtain ⟨htext, hne, htight, hagain⟩ := splitTarget_append htarget
  obtain ⟨body, blanks, rfl, hblanks, hlast, hspots⟩ := exists_splitSpot_append hspot
  refine ⟨String.ofList (t.toList ++ body), blanks ++ rest, ?_, ?_, fun args hparts hgap => ?_⟩
  · rw [htext, String.toList_ofList, List.append_assoc]
  · rw [hargs, Numbers.split_separators_append fun c hc => Numbers.isSeparator_of_isBlank (hblanks c hc)]
  · obtain ⟨tail, hchars, hends, hsplit, htail⟩ := exists_arguments hparts (String.ofList (t.toList ++ body))
    rw [String.toList_ofList, List.append_assoc] at hchars
    have htrim : Text.trim (" ".intercalate (String.ofList (t.toList ++ body) :: args)) =
        String.ofList (t.toList ++ (body ++ tail)) := by
      rw [Text.Tight.trim_eq, ← hchars, String.ofList_toList]
      rw [hchars]
      exact htight.append hne (Text.last_append hlast htail)
    obtain ⟨hid, hspots⟩ := hspots (String.ofList (t.toList ++ (body ++ tail))) tail hends
    rw [ht]
    subst hsplit
    exact parse_of_parts (htrim ▸ hagain _ hid) (htrim ▸ hspots) hgap

end Position.Ref

end DiagramMarkup
