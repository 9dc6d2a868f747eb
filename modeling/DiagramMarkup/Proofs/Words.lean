import Mathlib.Data.List.Forall2
import DiagramMarkup.Geometry.Numbers
import DiagramMarkup.Proofs.Steps
import DiagramMarkup.Proofs.Texts

/-!
# Words

A text is cut into words at separators, of which any number may stand together.

1. Separators at the ends of a text add no word (`Text.wordsWhere_surrounded`), and one between two texts keeps their
   words apart (`Text.wordsWhere_append_cons`).
2. Words that are joined by separators are found again (`Text.wordsWhere_joined`), so the parts of a list of numbers are
   known when they are written one after the other (`Numbers.split_intercalate`).
-/

namespace DiagramMarkup

namespace Text

variable {sep : Char → Bool}

/-- A word: not empty, and without separators. -/
def IsWord (sep : Char → Bool) (w : List Char) : Prop := w ≠ [] ∧ ∀ c ∈ w, sep c = false

theorem isWord_of_mem {cs w : List Char} (h : w ∈ wordsWhere sep cs) : IsWord sep w := by
  obtain ⟨hmem, hne⟩ := List.mem_filter.1 h
  exact ⟨by simpa using hne, not_sep_of_mem_splitWhere hmem⟩

/-- A separator keeps the words of two texts apart. -/
theorem wordsWhere_append_cons {c : Char} (hc : sep c) (u v : List Char) :
    wordsWhere sep (u ++ c :: v) = wordsWhere sep u ++ wordsWhere sep v := by
  unfold wordsWhere
  rw [splitWhere_eq_splitOnP, splitWhere_eq_splitOnP, splitWhere_eq_splitOnP, List.splitOnP_append_cons _ _ hc,
    List.filter_append]

theorem wordsWhere_word {w : List Char} (h : IsWord sep w) : wordsWhere sep w = [w] := by
  unfold wordsWhere
  rw [splitWhere_eq_splitOnP, List.splitOnP_eq_singleton (by simpa using h.2)]
  exact List.filter_cons_of_pos (by simpa using h.1)

/-- Separators in front add no word. -/
theorem wordsWhere_separators_append {u : List Char} (hu : ∀ c ∈ u, sep c) (cs : List Char) :
    wordsWhere sep (u ++ cs) = wordsWhere sep cs := by
  induction u with
  | nil => rfl
  | cons c u ih =>
    obtain ⟨hc, hu⟩ := List.forall_mem_cons.1 hu
    exact (wordsWhere_append_cons hc [] (u ++ cs)).trans (ih hu)

/-- Separators behind add no word. -/
theorem wordsWhere_append_separators (cs : List Char) {v : List Char} (hv : ∀ c ∈ v, sep c) :
    wordsWhere sep (cs ++ v) = wordsWhere sep cs := by
  cases v with
  | nil => rw [List.append_nil]
  | cons c v =>
    obtain ⟨hc, hv⟩ := List.forall_mem_cons.1 hv
    have hnone := wordsWhere_separators_append hv []
    rw [List.append_nil] at hnone
    rw [wordsWhere_append_cons hc, hnone]
    exact List.append_nil _

theorem wordsWhere_surrounded {u v : List Char} (hu : ∀ c ∈ u, sep c) (cs : List Char) (hv : ∀ c ∈ v, sep c) :
    wordsWhere sep (u ++ cs ++ v) = wordsWhere sep cs := by
  rw [wordsWhere_append_separators _ hv, wordsWhere_separators_append hu]

/-- Texts that are joined by a run of separators keep their words. -/
theorem wordsWhere_intercalate {c : Char} {glue : List Char} (hglue : ∀ d ∈ c :: glue, sep d) :
    ∀ us : List (List Char), wordsWhere sep ((c :: glue).intercalate us) = us.flatMap (wordsWhere sep)
  | [] => rfl
  | [u] => by rw [List.intercalate_singleton, List.flatMap_singleton]
  | u :: u' :: us => by
    obtain ⟨hc, hrest⟩ := List.forall_mem_cons.1 hglue
    rw [List.intercalate_cons_cons, List.append_assoc, List.cons_append, wordsWhere_append_cons hc,
      wordsWhere_separators_append hrest, wordsWhere_intercalate hglue (u' :: us)]
    rfl

/-- Words that are joined by a run of separators are found again. -/
theorem wordsWhere_joined {c : Char} {glue : List Char} (hglue : ∀ d ∈ c :: glue, sep d) {ws : List (List Char)}
    (h : ∀ w ∈ ws, IsWord sep w) : wordsWhere sep ((c :: glue).intercalate ws) = ws := by
  have hwords : ws.map (wordsWhere sep) = ws.map ([·]) := List.map_congr_left fun w hw => wordsWhere_word (h w hw)
  rw [wordsWhere_intercalate hglue, List.flatMap_def, hwords, ← List.flatMap_def, List.flatMap_singleton']

/-- Joined words end as the last of them. -/
theorem last_joined (glue : List Char) : ∀ {ws : List (List Char)}, (∀ w ∈ ws, IsWord sep w) →
    ∀ c ∈ (glue.intercalate ws).getLast?, sep c = false
  | [], _ => by simp
  | [w], h => fun c hc => (h w List.mem_cons_self).2 c (List.mem_of_mem_getLast? (by simpa using hc))
  | w :: w' :: ws, h => by
    have hrest := (List.forall_mem_cons.1 h).2
    have hne : glue.intercalate (w' :: ws) ≠ [] := by
      have hw' := (hrest w' List.mem_cons_self).1
      cases ws with
      | nil => simpa using hw'
      | cons v ws => simp [List.intercalate_cons_cons, hw']
    rw [List.intercalate_cons_cons, List.getLast?_append, List.getLast?_eq_some_getLast hne, Option.some_or,
      ← List.getLast?_eq_some_getLast hne]
    exact last_joined glue hrest

theorem last_append {cs ds : List Char} (hc : ∀ c ∈ cs.getLast?, isBlank c = false)
    (hd : ∀ c ∈ ds.getLast?, isBlank c = false) : ∀ c ∈ (cs ++ ds).getLast?, isBlank c = false := by
  intro c h
  rw [List.getLast?_append] at h
  cases hds : ds.getLast? with
  | none =>
    rw [hds] at h
    exact hc c h
  | some d =>
    rw [hds] at h
    exact hd c (hds ▸ h)

/-- The text starts and ends with a character that is not blank, unless it is empty. -/
structure Tight (cs : List Char) : Prop where
  head : ∀ c ∈ cs.head?, isBlank c = false
  last : ∀ c ∈ cs.getLast?, isBlank c = false

theorem Tight.trimChars_eq {cs : List Char} (h : Tight cs) : trimChars cs = cs := by
  have hstart : ∀ {ds : List Char}, (∀ c ∈ ds.head?, isBlank c = false) → trimStart ds = ds := by
    intro ds hds
    cases ds with
    | nil => rfl
    | cons d ds => exact List.dropWhile_cons_of_neg (by simp [hds d rfl])
  unfold trimChars
  rw [hstart h.head, hstart (by rw [List.head?_reverse]; exact h.last), List.reverse_reverse]

theorem Tight.trim_eq {s : String} (h : Tight s.toList) : trim s = s := by
  unfold trim
  rw [h.trimChars_eq, String.ofList_toList]

theorem Tight.append {cs ds : List Char} (h : Tight cs) (hne : cs ≠ []) (hd : ∀ c ∈ ds.getLast?, isBlank c = false) :
    Tight (cs ++ ds) := by
  refine ⟨?_, last_append h.last hd⟩
  obtain ⟨c, cs, rfl⟩ := List.exists_cons_of_ne_nil hne
  exact h.head

theorem tight_trimChars (cs : List Char) : Tight (trimChars cs) where
  head c hc := by
    refine ends_dropWhile isBlank cs c ?_
    show c ∈ (trimStart cs).head?
    rw [trimStart_eq_append, List.head?_append, Option.mem_def.1 hc]
    rfl
  last c hc := by
    rw [trimChars, List.getLast?_reverse] at hc
    exact ends_dropWhile isBlank _ c hc

theorem trim_trim (s : String) : trim (trim s) = trim s := by
  refine Tight.trim_eq ?_
  rw [trim, String.toList_ofList]
  exact tight_trimChars s.toList

/-- The blanks at the end of a text, cut off. -/
theorem exists_append_blanks (cs : List Char) :
    ∃ u b, cs = u ++ b ∧ (∀ c ∈ b, isBlank c) ∧ ∀ c ∈ u.getLast?, isBlank c = false := by
  refine ⟨(cs.reverse.dropWhile isBlank).reverse, (cs.reverse.takeWhile isBlank).reverse, ?_, fun c hc => ?_, ?_⟩
  · rw [← List.reverse_append, List.takeWhile_append_dropWhile, List.reverse_reverse]
  · exact List.mem_takeWhile_imp (List.mem_reverse.1 hc)
  · rw [List.getLast?_reverse]
    exact ends_dropWhile isBlank _

end Text

namespace Numbers

theorem isSeparator_of_isBlank {c : Char} (h : Text.isBlank c) : isSeparator c := by
  unfold isSeparator
  rw [h, Bool.true_or]

theorem not_isBlank {c : Char} (h : isSeparator c = false) : Text.isBlank c = false :=
  Bool.eq_false_iff.2 fun hb => by simp [isSeparator_of_isBlank hb] at h

/-- A single part of a list of numbers. -/
def IsPart (w : String) : Prop := Text.IsWord isSeparator w.toList

theorem IsPart.tight {w : String} (h : IsPart w) : Text.Tight w.toList := by
  have hblank : ∀ c ∈ w.toList, Text.isBlank c = false := fun c hc => not_isBlank (h.2 c hc)
  exact ⟨fun c hc => hblank c (List.mem_of_mem_head? hc), fun c hc => hblank c (List.mem_of_mem_getLast? hc)⟩

theorem isPart_of_mem {s w : String} (h : w ∈ split s) : IsPart w := by
  obtain ⟨cs, hcs, rfl⟩ := List.mem_map.1 h
  unfold IsPart
  rw [String.toList_ofList]
  exact Text.isWord_of_mem hcs

theorem split_ofList_joined {c : Char} {glue : List Char} (hglue : ∀ d ∈ c :: glue, isSeparator d) {ws : List String}
    (h : ∀ w ∈ ws, IsPart w) : split (String.ofList ((c :: glue).intercalate (ws.map String.toList))) = ws := by
  unfold split
  rw [String.toList_ofList, Text.wordsWhere_joined hglue (List.forall_mem_map.2 h), List.map_map]
  simp

/-- The parts of a list of numbers are found again when they are written one after the other. -/
theorem split_intercalate {ws : List String} (h : ∀ w ∈ ws, IsPart w) : split (" ".intercalate ws) = ws := by
  have hchars : " ".intercalate ws = String.ofList ([' '].intercalate (ws.map String.toList)) := by
    rw [← String.toList_inj, String.toList_ofList, String.toList_intercalate]
    rfl
  rw [hchars, split_ofList_joined (by simp [isSeparator, Text.isBlank]) h]

/-- Separators in front of a list of numbers are not read. -/
theorem split_separators_append {u : List Char} (hu : ∀ c ∈ u, isSeparator c) (cs : List Char) :
    split (String.ofList (u ++ cs)) = split (String.ofList cs) := by
  unfold split
  rw [String.toList_ofList, String.toList_ofList, Text.wordsWhere_separators_append hu]

theorem split_trim (s : String) : split (Text.trim s) = split s := by
  have hparts := Text.trimStart_eq_append s.toList
  have hchars : s.toList.takeWhile Text.isBlank ++ Text.trimChars s.toList ++
      ((Text.trimStart s.toList).reverse.takeWhile Text.isBlank).reverse = s.toList := by
    rw [List.append_assoc, ← hparts, Text.trimStart, List.takeWhile_append_dropWhile]
  have hblank : ∀ {cs : List Char}, ∀ c ∈ cs.takeWhile Text.isBlank, isSeparator c :=
    fun c hc => isSeparator_of_isBlank (List.mem_takeWhile_imp hc)
  unfold split Text.trim
  rw [String.toList_ofList, ← Text.wordsWhere_surrounded hblank (Text.trimChars s.toList)
    (fun c hc => hblank c (List.mem_reverse.1 hc)), hchars]

variable {α : Type} [Scalar α]

/-- Texts are read as numbers in turn. -/
theorem mapM_read_eq_ok {fault : String → Fault} {ws : List String} {xs : List α} :
    (ws.mapM fun w => match Scalar.read? w with
      | some x => .ok x
      | none => .error (fault w)) = Except.ok xs ↔ List.Forall₂ (fun w x => Scalar.read? w = some x) ws xs := by
  induction ws generalizing xs with
  | nil =>
    rw [List.mapM_nil, List.forall₂_nil_left_iff]
    exact ⟨fun h => by cases h; rfl, fun h => by rw [h]; rfl⟩
  | cons w ws ih =>
    rw [List.mapM_cons, List.forall₂_cons_left_iff]
    constructor
    · intro h
      obtain ⟨x, hx, h⟩ := except_bind_eq_ok h
      obtain ⟨ys, hys, h⟩ := except_bind_eq_ok h
      cases h
      refine ⟨x, ys, ?_, ih.1 hys, rfl⟩
      split at hx
      · next h =>
        cases hx
        exact h
      · cases hx
    · rintro ⟨x, ys, hx, hys, rfl⟩
      simp only [hx, ih.2 hys]
      rfl

theorem parse_eq_ok {s : String} {xs : List α} :
    parse s = .ok xs ↔ List.Forall₂ (fun w x => Scalar.read? w = some x) (split s) xs :=
  mapM_read_eq_ok

end Numbers

end DiagramMarkup
