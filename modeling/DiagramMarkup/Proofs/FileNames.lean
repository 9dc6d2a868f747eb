import DiagramMarkup.Proofs.Destinations
import DiagramMarkup.Proofs.Words

/-!
# Clean file names

A text becomes a file name in three passes: characters that are not shown are dropped, then the blanks around what is
left, then the dots in front.

1. A text is left as it is exactly if it is clean (`cleanName_eq_self_iff`).
2. A name never starts with a dot and never ends with a blank, but the last pass may bring a blank to the front: the one
   that stands behind the dots (`blank_head_visibleChars_iff`).
3. So a name is clean, and stays as it is when it is cleaned again, unless the text has such a blank
   (`cleanName_clean_iff`).
-/

namespace DiagramMarkup.Files

/-- The characters of a text that may stand in a file name. -/
def shown (cs : List Char) : List Char := cs.filter fun c => !isControl c && !isDivider c

theorem visibleChars_eq (cs : List Char) : visibleChars cs = (Text.trimChars (shown cs)).dropWhile (· == '.') := rfl

/-- A name that is one visible component of a path. -/
structure Clean (s : String) : Prop where
  nonempty : s ≠ ""
  shown : ∀ c ∈ s.toList, isControl c = false ∧ isDivider c = false
  undotted : s.toList.head? ≠ some '.'
  tight : Text.Tight s.toList

/-- Of what is shown of the text, a blank stands right behind dots in front, and something else follows. -/
def BlankBehindDots (s : String) : Prop :=
  ∃ blanks dots b rest, shown s.toList = blanks ++ dots ++ b :: rest ∧ (∀ c ∈ blanks, Text.isBlank c) ∧
    (dots ≠ [] ∧ ∀ c ∈ dots, c = '.') ∧ Text.isBlank b ∧ ∃ c ∈ rest, Text.isBlank c = false

theorem clean_badName : Clean badName where
  nonempty := by decide
  shown := by simp [badName, isControl, isDivider]
  undotted := by decide
  tight := ⟨by simp [badName, Text.isBlank], by simp [badName, Text.isBlank]⟩

/-! ## Names that stay as they are -/

theorem cleanName_of_empty {s : String} (h : visibleChars s.toList = []) : cleanName s = badName := by
  unfold cleanName
  rw [h]
  rfl

theorem cleanName_of_ne {s : String} (h : visibleChars s.toList ≠ []) :
    (cleanName s).toList = visibleChars s.toList := by
  unfold cleanName
  rw [if_neg (by simpa using h), String.toList_ofList]

theorem shown_of_forall {cs : List Char} (h : ∀ c ∈ cs, isControl c = false ∧ isDivider c = false) : shown cs = cs :=
  List.filter_eq_self.2 fun c hc => by simp [h c hc]

theorem visibleChars_of_clean {s : String} (h : Clean s) : visibleChars s.toList = s.toList := by
  rw [visibleChars_eq, shown_of_forall h.shown, h.tight.trimChars_eq]
  have hhead := h.undotted
  cases hs : s.toList with
  | nil => rfl
  | cons c cs =>
    rw [hs] at hhead
    exact List.dropWhile_cons_of_neg (by simpa using hhead)

/-- Nothing is taken off a text only if no pass takes off anything. -/
theorem tight_of_visibleChars_eq {cs : List Char} (h : visibleChars cs = cs) : Text.Tight cs := by
  have hdrop : cs.Sublist (Text.trimChars (shown cs)) := by
    conv_lhs => rw [← h]
    exact List.dropWhile_sublist _
  have htrim : Text.trimChars (shown cs) = cs :=
    ((Text.trimChars_sublist _).trans List.filter_sublist).antisymm hdrop
  exact htrim ▸ Text.tight_trimChars (shown cs)

/-! ## What the passes leave -/

theorem cleanName_ne_empty (s : String) : cleanName s ≠ "" := by
  by_cases h : visibleChars s.toList = []
  · rw [cleanName_of_empty h]
    exact clean_badName.nonempty
  · intro hempty
    rw [← cleanName_of_ne h, hempty] at h
    exact h rfl

theorem shown_cleanName (s : String) : ∀ c ∈ (cleanName s).toList, isControl c = false ∧ isDivider c = false := by
  by_cases h : visibleChars s.toList = []
  · rw [cleanName_of_empty h]
    exact clean_badName.shown
  · rw [cleanName_of_ne h]
    exact fun c hc => (mem_of_mem_visibleChars hc).2

/-- What is left behind the dots ends like the trimmed text. -/
theorem last_cleanName (s : String) : ∀ c ∈ (cleanName s).toList.getLast?, Text.isBlank c = false := by
  by_cases h : visibleChars s.toList = []
  · rw [cleanName_of_empty h]
    exact clean_badName.tight.last
  · rw [cleanName_of_ne h]
    intro c hc
    refine (Text.tight_trimChars (shown s.toList)).last c ?_
    rw [← List.takeWhile_append_dropWhile (p := (· == '.')) (l := Text.trimChars (shown s.toList)),
      List.getLast?_append, ← visibleChars_eq, Option.mem_def.1 hc]
    rfl

theorem clean_cleanName_iff (s : String) :
    Clean (cleanName s) ↔ ∀ c ∈ (cleanName s).toList.head?, Text.isBlank c = false :=
  ⟨fun h => h.tight.head, fun h => ⟨cleanName_ne_empty s, shown_cleanName s, head?_cleanName s, h, last_cleanName s⟩⟩

/-- A text is a clean name exactly if cleaning leaves it as it is. -/
theorem cleanName_eq_self_iff (s : String) : cleanName s = s ↔ Clean s := by
  constructor
  · intro h
    rw [← h, clean_cleanName_iff]
    by_cases hempty : visibleChars s.toList = []
    · rw [cleanName_of_empty hempty]
      exact clean_badName.tight.head
    · rw [h]
      exact (tight_of_visibleChars_eq (by rw [← cleanName_of_ne hempty, h])).head
  · intro h
    have hchars := visibleChars_of_clean h
    have hne : visibleChars s.toList ≠ [] := by
      rw [hchars]
      simpa using h.nonempty
    rw [← String.toList_inj, cleanName_of_ne hne, hchars]

/-! ## The blank behind the dots -/

/-- Trimming takes off the blanks in front of the dots, and nothing else before the last character that is no blank. -/
theorem trimChars_behind_dots {blanks dots rest : List Char} {b : Char} (hblanks : ∀ c ∈ blanks, Text.isBlank c)
    (hdots : dots ≠ [] ∧ ∀ c ∈ dots, c = '.') (hrest : ∃ c ∈ rest, Text.isBlank c = false) :
    ∃ rest', Text.trimChars (blanks ++ dots ++ b :: rest) = dots ++ b :: rest' := by
  obtain ⟨d, ds, rfl⟩ := List.exists_cons_of_ne_nil hdots.1
  obtain rfl := hdots.2 d List.mem_cons_self
  obtain ⟨c, hc, hcb⟩ := hrest
  obtain ⟨u, v, rfl⟩ := List.append_of_mem hc
  have front : Text.trimStart (blanks ++ '.' :: (ds ++ b :: u)) = '.' :: (ds ++ b :: u) :=
    List.dropWhile_append_of_pos hblanks
  have regroup : blanks ++ '.' :: ds ++ b :: (u ++ c :: v) = blanks ++ '.' :: (ds ++ b :: u) ++ c :: v := by simp
  refine ⟨u ++ Text.trimChars (c :: v), ?_⟩
  rw [regroup, Text.trimChars_append hcb, front]
  simp

/-- A trimmed text that starts with dots and a blank goes on with something else. -/
theorem exists_behind_dots {cs dots r : List Char} {b : Char} (htrim : Text.trimChars cs = dots ++ b :: r)
    (hb : Text.isBlank b) : dots ≠ [] ∧ ∃ c ∈ r, Text.isBlank c = false := by
  have tight := Text.tight_trimChars cs
  rw [htrim] at tight
  constructor
  · rintro rfl
    simpa [hb] using tight.head b rfl
  · have hne : dots ++ b :: r ≠ [] := by simp
    have last := tight.last _ (List.getLast?_eq_some_getLast hne)
    have hr : r ≠ [] := by
      rintro rfl
      simp [hb] at last
    exact ⟨r.getLast hr, List.getLast_mem hr, by simpa [List.getLast_append, List.getLast_cons hr] using last⟩

/-- What the last pass leaves starts with a blank exactly if a blank stands behind the dots. -/
theorem blank_head_visibleChars_iff (s : String) :
    (∃ b ∈ (visibleChars s.toList).head?, Text.isBlank b) ↔ BlankBehindDots s := by
  constructor
  · rintro ⟨b, hb, hblank⟩
    obtain ⟨r, hr⟩ := List.head?_eq_some_iff.1 (Option.mem_def.1 hb)
    have htrim : Text.trimChars (shown s.toList) =
        (Text.trimChars (shown s.toList)).takeWhile (· == '.') ++ b :: r := by
      rw [← hr, visibleChars_eq, List.takeWhile_append_dropWhile]
    obtain ⟨hne, c, hc, hcb⟩ := exists_behind_dots htrim hblank
    refine ⟨(shown s.toList).takeWhile Text.isBlank, _, b,
      r ++ ((Text.trimStart (shown s.toList)).reverse.takeWhile Text.isBlank).reverse, ?_,
      fun c hc => List.mem_takeWhile_imp hc, ⟨hne, fun c hc => ?_⟩, hblank, c, List.mem_append_left _ hc, hcb⟩
    · rw [List.append_assoc, ← List.cons_append, ← List.append_assoc _ (b :: r), ← htrim, ← Text.trimStart_eq_append]
      exact List.takeWhile_append_dropWhile.symm
    · simpa using List.mem_takeWhile_imp hc
  · rintro ⟨blanks, dots, b, rest, hs, hblanks, hdots, hb, hrest⟩
    obtain ⟨rest', htrim⟩ := trimChars_behind_dots (b := b) hblanks hdots hrest
    have hne : b ≠ '.' := fun h => by simp [h, Text.isBlank] at hb
    refine ⟨b, ?_, hb⟩
    rw [visibleChars_eq, hs, htrim, List.dropWhile_append_of_pos (by simpa using hdots.2),
      List.dropWhile_cons_of_neg (by simpa using hne)]
    rfl

theorem head_cleanName_iff (s : String) :
    (∀ c ∈ (cleanName s).toList.head?, Text.isBlank c = false) ↔ ¬ BlankBehindDots s := by
  rw [← blank_head_visibleChars_iff]
  by_cases h : visibleChars s.toList = []
  · rw [cleanName_of_empty h, h]
    exact iff_of_true clean_badName.tight.head (by simp)
  · rw [cleanName_of_ne h]
    simp

/-! ## Cleaning -/

/-- A name is not empty, shows all of its characters, divides nothing, starts with no dot and ends with no blank. It
starts with no blank either, and stays as it is when it is cleaned again, exactly if no blank stands behind the dots in
front of the text. -/
theorem cleanName_clean_iff (s : String) :
    (cleanName s ≠ "" ∧ (∀ c ∈ (cleanName s).toList, isControl c = false ∧ isDivider c = false) ∧
        (cleanName s).toList.head? ≠ some '.' ∧ ∀ c ∈ (cleanName s).toList.getLast?, Text.isBlank c = false) ∧
      ((∀ c ∈ (cleanName s).toList.head?, Text.isBlank c = false) ↔ ¬ BlankBehindDots s) ∧
      (cleanName (cleanName s) = cleanName s ↔ ¬ BlankBehindDots s) := by
  refine ⟨⟨cleanName_ne_empty s, shown_cleanName s, head?_cleanName s, last_cleanName s⟩, head_cleanName_iff s, ?_⟩
  rw [cleanName_eq_self_iff, clean_cleanName_iff, head_cleanName_iff]

/-- The blank between the dot and the letter comes to the front, and is taken off only when the name is cleaned again. -/
theorem cleanName_exposes_blank : cleanName ". a" = " a" ∧ cleanName " a" = "a" := by decide +kernel

end DiagramMarkup.Files
