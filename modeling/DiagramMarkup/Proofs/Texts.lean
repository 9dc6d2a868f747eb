import DiagramMarkup.Text.Split
import Mathlib.Data.List.TakeWhile
import Mathlib.Tactic.Common

/-!
# Texts in parts

What searching, trimming, splitting and replacing do to the characters of a text.

1. A search finds the first occurrence (`Text.breakOn_first`), also when the text goes on behind it
   (`Text.breakOn_append`).
2. A run of characters ends where the text goes on with another one (`Text.Ends`).
3. Trimming takes blanks off both ends and nothing else (`Text.exists_trimChars`, `Text.exists_trimChars_cut`).
4. The pieces of a text hold its characters but for the separators (`Text.mem_of_mem_splitWhere`,
   `Text.not_sep_of_mem_splitWhere`).
5. Replacing one character by another goes through the text character by character (`Text.replaceChars_singleton`).
-/

namespace DiagramMarkup

namespace Text

/-! ## Searching -/

/-- The first occurrence stays the first when the text goes on. -/
theorem breakOn_append {sep cs before after : List Char} (hsep : sep ≠ []) (h : breakOn sep cs = some (before, after))
    (rest : List Char) : breakOn sep (cs ++ rest) = some (before, after ++ rest) := by
  fun_induction breakOn sep cs generalizing before with
  | case1 hs => exact absurd (List.isEmpty_iff.1 hs) hsep
  | case2 => cases h
  | case3 c cs hp =>
    obtain ⟨r, hr⟩ := List.isPrefixOf_iff_prefix.1 hp
    cases h
    rw [List.cons_append, breakOn, ← List.cons_append, ← hr, if_pos (by simp [List.isPrefixOf_iff_prefix])]
    simp
  | case4 c cs hp ih =>
    obtain ⟨⟨u, v⟩, hu, he⟩ := Option.map_eq_some_iff.1 h
    cases he
    -- The occurrence further on leaves room for one at the start, which would be one without the rest too.
    have hnot : ¬ sep.isPrefixOf (c :: (cs ++ rest)) := by
      intro hq
      refine hp (List.isPrefixOf_iff_prefix.2 (List.prefix_of_prefix_length_le (List.isPrefixOf_iff_prefix.1 hq)
        (List.prefix_append (c :: cs) rest) ?_))
      rw [eq_of_breakOn hu]
      simp only [List.length_cons, List.length_append]
      omega
    rw [List.cons_append, breakOn, if_neg hnot, ih hu]
    rfl

/-- A text without the first character of the separator stands before the separator as a whole. -/
theorem breakOn_of_not_mem {a : Char} {sep before : List Char} (h : a ∉ before) (after : List Char) :
    breakOn (a :: sep) (before ++ (a :: sep) ++ after) = some (before, after) := by
  induction before with
  | nil =>
    rw [List.nil_append, List.cons_append, breakOn, ← List.cons_append, if_pos (by simp [List.isPrefixOf_iff_prefix])]
    simp
  | cons c before ih =>
    simp only [List.mem_cons, not_or] at h
    rw [List.cons_append, List.cons_append, breakOn, if_neg (by simp [List.isPrefixOf, h.1]), ih h.2]
    rfl

theorem breakOn_singleton {a : Char} {before : List Char} (h : a ∉ before) (after : List Char) :
    breakOn [a] (before ++ a :: after) = some (before, after) := by
  have found : breakOn [a] (before ++ [a] ++ after) = some (before, after) := breakOn_of_not_mem h after
  rwa [List.append_assoc, List.singleton_append] at found

theorem breakOn_eq_none {a : Char} {sep cs : List Char} (h : a ∉ cs) : breakOn (a :: sep) cs = none := by
  cases hb : breakOn (a :: sep) cs with
  | none => rfl
  | some r =>
    refine absurd ?_ h
    rw [eq_of_breakOn hb]
    simp

/-- What stands before the first occurrence of a character does not hold it. -/
theorem not_mem_of_breakOn {a : Char} {cs before after : List Char} (h : breakOn [a] cs = some (before, after)) :
    a ∉ before := by
  fun_induction breakOn [a] cs generalizing before with
  | case1 hs => cases hs
  | case2 => cases h
  | case3 c cs hp =>
    cases h
    exact List.not_mem_nil
  | case4 c cs hp ih =>
    obtain ⟨⟨u, v⟩, hu, he⟩ := Option.map_eq_some_iff.1 h
    cases he
    have hne : a ≠ c := by simpa [List.isPrefixOf] using hp
    exact List.not_mem_cons_of_ne_of_not_mem hne (ih hu)

theorem breakOn_ne_none {sep : List Char} (hsep : sep ≠ []) (u v : List Char) : breakOn sep (u ++ sep ++ v) ≠ none := by
  induction u with
  | nil =>
    obtain ⟨a, sep, rfl⟩ := List.exists_cons_of_ne_nil hsep
    rw [List.nil_append, List.cons_append, breakOn, ← List.cons_append, if_pos (by simp [List.isPrefixOf_iff_prefix])]
    exact Option.some_ne_none _
  | cons c u ih =>
    rw [List.cons_append, List.cons_append, breakOn]
    split
    · exact Option.some_ne_none _
    · simpa using ih

theorem not_infix_of_occurs {sep cs : List Char} (hsep : sep ≠ []) (h : occurs sep cs = false) : ¬ sep <:+: cs := by
  rintro ⟨u, v, rfl⟩
  exact breakOn_ne_none hsep u v (by simpa [occurs] using h)

/-- A separator is found where it stands if it does not occur before. -/
theorem breakOn_first {sep before : List Char} (hsep : sep ≠ []) (h : ¬ sep <:+: before ++ sep.dropLast)
    (after : List Char) : breakOn sep (before ++ sep ++ after) = some (before, after) := by
  induction before with
  | nil =>
    obtain ⟨a, sep, rfl⟩ := List.exists_cons_of_ne_nil hsep
    rw [List.nil_append, List.cons_append, breakOn, ← List.cons_append, if_pos (by simp [List.isPrefixOf_iff_prefix])]
    simp
  | cons c before ih =>
    rw [List.cons_append, List.infix_cons_iff, not_or] at h
    have hnot : ¬ sep.isPrefixOf (c :: (before ++ sep ++ after)) := by
      intro hp
      refine h.1 (List.prefix_of_prefix_length_le (List.isPrefixOf_iff_prefix.1 hp) ?_ ?_)
      · rw [List.append_assoc, List.cons_prefix_cons]
        exact ⟨rfl, (List.prefix_append_right_inj before).2 ((List.dropLast_prefix sep).trans (List.prefix_append _ _))⟩
      · have := List.length_pos_iff.2 hsep
        simp only [List.length_cons, List.length_append, List.length_dropLast]
        omega
    rw [List.cons_append, List.cons_append, breakOn, if_neg hnot, ih h.2]
    rfl

/-! ## Runs of characters -/

/-- The text goes on with no character of the class. -/
def Ends (p : Char → Bool) (cs : List Char) : Prop := ∀ c ∈ cs.head?, p c = false

section Runs

variable {p : Char → Bool} {u rest : List Char}

theorem Ends.takeWhile (h : Ends p rest) (hu : ∀ c ∈ u, p c) : (u ++ rest).takeWhile p = u := by
  rw [List.takeWhile_append_of_pos hu]
  cases rest with
  | nil => simp
  | cons c rest => simp [h c rfl]

theorem Ends.dropWhile (h : Ends p rest) (hu : ∀ c ∈ u, p c) : (u ++ rest).dropWhile p = rest := by
  rw [List.dropWhile_append_of_pos hu]
  cases rest with
  | nil => rfl
  | cons c rest => simp [h c rfl]

theorem Ends.append {v : List Char} (h : Ends p rest) (hv : Ends p v) : Ends p (rest ++ v) := by
  cases rest with
  | nil => exact hv
  | cons c rest => exact h

theorem ends_dropWhile (p : Char → Bool) (cs : List Char) : Ends p (cs.dropWhile p) := by
  intro c hc
  have := List.head?_dropWhile_not p cs
  rw [hc] at this
  simpa using this

end Runs

/-! ## Starts and ends -/

theorem startsWith_iff {part s : String} : startsWith part s = true ↔ ∃ rest, s = part ++ rest := by
  constructor
  · intro h
    obtain ⟨rest, hrest⟩ := List.isPrefixOf_iff_prefix.1 h
    exact ⟨String.ofList rest, by rw [← String.toList_inj, ← hrest]; simp⟩
  · rintro ⟨rest, rfl⟩
    simp [startsWith]

theorem endsWith_iff {part s : String} : endsWith part s = true ↔ ∃ front, s = front ++ part := by
  rw [endsWith, List.isSuffixOf_iff_suffix]
  constructor
  · rintro ⟨front, hfront⟩
    exact ⟨String.ofList front, by rw [← String.toList_inj, ← hfront]; simp⟩
  · rintro ⟨front, rfl⟩
    exact ⟨front.toList, by simp⟩

theorem after?_eq_some_iff {part s rest : String} : after? part s = some rest ↔ s = part ++ rest := by
  constructor
  · intro h
    unfold after? at h
    split at h
    · next starts =>
      obtain ⟨rest', rfl⟩ := startsWith_iff.1 starts
      cases h
      simp
    · cases h
  · rintro rfl
    simp [after?, startsWith]

theorem dropStart_append (part s : String) : dropStart part (part ++ s) = s := by
  have starts : startsWith part (part ++ s) = true := by simp [startsWith]
  simp [dropStart, after?, starts]

theorem dropEnd_append (s part : String) : dropEnd part (s ++ part) = s := by
  have ends : endsWith part (s ++ part) = true := by simp [endsWith]
  simp [dropEnd, before?, ends]

theorem dropEnd_of_endsWith {part s : String} (h : endsWith part s = false) : dropEnd part s = s := by
  simp [dropEnd, before?, h]

/-! ## Trimming -/

theorem takeWhile_stop {p : Char → Bool} {c : Char} (hc : p c = false) (u v : List Char) :
    (u ++ c :: v).takeWhile p = u.takeWhile p := by
  rw [List.takeWhile_append, List.takeWhile_cons_of_neg (by simp [hc]), List.append_nil]
  split
  · next h => exact ((List.takeWhile_prefix p).eq_of_length h).symm
  · rfl

theorem dropWhile_stop {p : Char → Bool} {c : Char} (hc : p c = false) (u v : List Char) :
    (u ++ c :: v).dropWhile p = u.dropWhile p ++ c :: v := by
  rw [List.dropWhile_append, List.dropWhile_cons_of_neg (by simp [hc])]
  split
  · next h => rw [List.isEmpty_iff.1 h, List.nil_append]
  · rfl

/-- Trimming at the end takes off a run of blanks. -/
theorem trimStart_eq_append (cs : List Char) :
    trimStart cs = trimChars cs ++ ((trimStart cs).reverse.takeWhile isBlank).reverse := by
  conv_lhs => rw [← List.reverse_reverse (trimStart cs), ← List.takeWhile_append_dropWhile (p := isBlank)
    (l := (trimStart cs).reverse), List.reverse_append]
  rfl

/-- A text that goes on with a character that is not blank is trimmed at the two ends apart. -/
theorem trimChars_append {c : Char} (hc : isBlank c = false) (cs ds : List Char) :
    trimChars (cs ++ c :: ds) = trimStart cs ++ trimChars (c :: ds) := by
  have front : ∀ us vs, trimStart (us ++ c :: vs) = trimStart us ++ c :: vs := dropWhile_stop hc
  have back : ∀ us : List Char, (us ++ c :: ds).reverse = ds.reverse ++ c :: us.reverse := by simp
  have head : trimStart (c :: ds) = c :: ds := front [] ds
  unfold trimChars
  rw [front, back, front, head, List.reverse_cons, front]
  simp

/-- Where a text is cut at a character that is not blank, trimming what stands before it takes off blanks only. -/
theorem exists_trimChars_cut {c : Char} (hc : isBlank c = false) (u v : List Char) :
    ∃ ws v', trimChars (u ++ c :: v) = trimChars u ++ (ws ++ c :: v') ∧ ∀ d ∈ ws, isBlank d := by
  have stop : ∀ u v, trimStart (u ++ c :: v) = trimStart u ++ c :: v := dropWhile_stop hc
  refine ⟨((trimStart u).reverse.takeWhile isBlank).reverse, (trimStart v.reverse).reverse, ?_, fun d hd => ?_⟩
  · have hrev : (trimStart u ++ c :: v).reverse = v.reverse ++ c :: (trimStart u).reverse := by simp
    rw [trimChars, stop, hrev, stop, ← List.append_assoc, ← trimStart_eq_append]
    simp
  · exact List.mem_takeWhile_imp (List.mem_reverse.1 hd)

/-- A trimmed text stands in the whole one, with blanks behind it. -/
theorem exists_trimChars (cs : List Char) : ∃ u v, cs = u ++ trimChars cs ++ v ∧ ∀ c ∈ v, isBlank c := by
  refine ⟨cs.takeWhile isBlank, ((trimStart cs).reverse.takeWhile isBlank).reverse, ?_, fun c hc => ?_⟩
  · rw [List.append_assoc, ← trimStart_eq_append, trimStart, List.takeWhile_append_dropWhile]
  · exact List.mem_takeWhile_imp (List.mem_reverse.1 hc)

theorem trimChars_sublist (cs : List Char) : (trimChars cs).Sublist cs := by
  obtain ⟨u, v, hcs, -⟩ := exists_trimChars cs
  exact List.IsInfix.sublist ⟨u, v, hcs.symm⟩

theorem mem_of_mem_trimChars {cs : List Char} {c : Char} (hc : c ∈ trimChars cs) : c ∈ cs :=
  (trimChars_sublist cs).subset hc

theorem mem_of_mem_trim {s : String} {c : Char} (hc : c ∈ (trim s).toList) : c ∈ s.toList := by
  rw [trim, String.toList_ofList] at hc
  exact mem_of_mem_trimChars hc

theorem all_isBlank_of_trim {s : String} (h : trim s = "") : ∀ c ∈ s.toList, isBlank c := by
  have hchars : trimChars s.toList = [] := by
    have := congrArg String.toList h
    rwa [trim, String.toList_ofList] at this
  unfold trimChars trimStart at hchars
  rw [List.reverse_eq_nil_iff, List.dropWhile_eq_nil_iff] at hchars
  intro c hc
  rw [← List.takeWhile_append_dropWhile (p := isBlank) (l := s.toList)] at hc
  rcases List.mem_append.1 hc with hc | hc
  · exact List.mem_takeWhile_imp hc
  · exact hchars c (List.mem_reverse.2 hc)

theorem trimChars_eq_nil {cs : List Char} (h : ∀ c ∈ cs, isBlank c) : trimChars cs = [] := by
  unfold trimChars trimStart
  rw [List.dropWhile_eq_nil_iff.2 h]
  rfl

/-! ## Splitting -/

theorem mem_of_mem_splitWhere {sep : Char → Bool} {cs w : List Char} (hw : w ∈ splitWhere sep cs)
    {c : Char} (hc : c ∈ w) : c ∈ cs := by
  induction cs generalizing w with
  | nil =>
    rw [splitWhere, List.mem_singleton] at hw
    rwa [hw] at hc
  | cons d cs ih =>
    unfold splitWhere at hw
    split at hw
    · rcases List.mem_cons.1 hw with rfl | hw
      · cases hc
      · exact List.mem_cons_of_mem _ (ih hw hc)
    split at hw
    · next hnil => exact absurd hnil (splitWhere_ne_nil _ _)
    · next v ws heq =>
      rw [heq] at ih
      rcases List.mem_cons.1 hw with rfl | hw
      · rcases List.mem_cons.1 hc with rfl | hc
        · exact List.mem_cons_self
        · exact List.mem_cons_of_mem _ (ih List.mem_cons_self hc)
      · exact List.mem_cons_of_mem _ (ih (List.mem_cons_of_mem _ hw) hc)

theorem mem_of_mem_words {s w : String} (hw : w ∈ words s) {c : Char} (hc : c ∈ w.toList) :
    c ∈ s.toList := by
  obtain ⟨cs, hcs, rfl⟩ := List.mem_map.1 hw
  rw [String.toList_ofList] at hc
  exact mem_of_mem_splitWhere (List.mem_filter.1 hcs).1 hc

theorem splitWhere_eq_splitOnP (sep : Char → Bool) (cs : List Char) : splitWhere sep cs = cs.splitOnP sep := by
  induction cs with
  | nil => rfl
  | cons c cs ih =>
    rw [splitWhere, List.splitOnP_cons_eq_if_modifyHead, ih]
    split
    · rfl
    · obtain ⟨w, ws, hw⟩ := List.exists_cons_of_ne_nil (List.splitOnP_ne_nil sep cs)
      rw [hw]
      rfl

/-- No piece holds a separator. -/
theorem not_sep_of_mem_splitWhere {sep : Char → Bool} {cs w : List Char} (hw : w ∈ splitWhere sep cs) :
    ∀ c ∈ w, sep c = false := by
  induction cs generalizing w with
  | nil =>
    rw [splitWhere, List.mem_singleton] at hw
    simp [hw]
  | cons c cs ih =>
    unfold splitWhere at hw
    split at hw
    · rcases List.mem_cons.1 hw with rfl | hw
      · simp
      · exact ih hw
    · next hc =>
      split at hw
      · next hnil => exact absurd hnil (splitWhere_ne_nil _ _)
      · next v vs hv =>
        rcases List.mem_cons.1 hw with rfl | hw
        · intro d hd
          rcases List.mem_cons.1 hd with rfl | hd
          · simpa using hc
          · exact ih (hv ▸ List.mem_cons_self) d hd
        · exact ih (hv ▸ List.mem_cons_of_mem v hw)

/-- Pieces are split further where a change of single characters makes new separators. -/
theorem splitOn_map {f : Char → Char} {a : Char} (ha : f a = a) (cs : List Char) :
    (cs.map f).splitOn a = (cs.splitOn a).flatMap fun w => (w.map f).splitOn a := by
  induction cs with
  | nil => rfl
  | cons c cs ih =>
    rw [List.map_cons, List.splitOn_cons_eq_if_modifyHead, List.splitOn_cons_eq_if_modifyHead, ih]
    obtain ⟨w, ws, hw⟩ := List.exists_cons_of_ne_nil (List.splitOn_ne_nil a cs)
    by_cases hc : c = a
    · simp [hc, ha]
    · obtain ⟨v, vs, hv⟩ := List.exists_cons_of_ne_nil (List.splitOn_ne_nil a (w.map f))
      simp only [hw, beq_iff_eq, if_neg hc, List.modifyHead_cons, List.flatMap_cons, List.map_cons,
        List.splitOn_cons_eq_if_modifyHead, hv]
      split <;> rfl

/-! ## Replacing -/

/-- Replacing a character by another changes it wherever it stands. -/
theorem replaceChars_singleton (a b : Char) (cs : List Char) :
    replaceChars [a] [b] cs = cs.map fun c => if c = a then b else c := by
  induction cs with
  | nil => exact replaceChars_nil _ _
  | cons c cs ih =>
    rw [List.map_cons, ← ih]
    by_cases hc : c = a
    · rw [if_pos hc, hc]
      exact replaceChars_append (by simp) [b] cs
    · rw [if_neg hc]
      exact replaceChars_cons (by simp) [b] (by simp [List.cons_prefix_cons, Ne.symm hc])

end Text

end DiagramMarkup
