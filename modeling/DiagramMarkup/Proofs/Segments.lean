import DiagramMarkup.Files.OutputPath
import DiagramMarkup.Proofs.Paths

/-!
# Paths taken apart from their end

The name that a template gives is taken apart from its end: the last component is cut off, then one slash, and so on
until a component is empty (`segments_step`).

1. What stands in front of two slashes in a row is never reached (`segments_doubled`).
2. So the segments are all components of the path that are not empty, if no name stands in front of two slashes in a
   row, and otherwise only the last of them (`segments_eq_names_iff`).
-/

namespace DiagramMarkup.Files.Path

/-! ## The last component -/

theorem intercalate_components (p : String) : "/".intercalate (components p) = p := by
  have plain : String.toList ∘ String.ofList = fun cs => cs := funext fun _ => String.toList_ofList
  rw [components_eq, ← String.toList_inj, String.toList_intercalate, List.map_map, plain, List.map_id']
  exact List.intercalate_splitOn '/'

theorem components_ne_nil (p : String) : components p ≠ [] := by
  unfold components Text.splitAt
  simpa using Text.splitWhere_ne_nil _ _

/-- A path is a single component, or it has a last one behind a slash. -/
theorem single_or_slash (p : String) : Single p ∨ ∃ a b, Single b ∧ p = a ++ "/" ++ b := by
  obtain ⟨parents, last, hp⟩ := (components p).eq_nil_or_concat.resolve_left (components_ne_nil p)
  rw [List.concat_eq_append] at hp
  have single : Single last := single_of_mem_components (p := p) (by rw [hp]; simp)
  by_cases hnil : parents = []
  · refine .inl ?_
    rw [← intercalate_components p, hp, hnil]
    simpa using single
  · refine .inr ⟨"/".intercalate parents, last, single, ?_⟩
    conv_lhs => rw [← intercalate_components p, hp, String.intercalate_append_of_ne_nil hnil (by simp)]
    simp

theorem split_slash {b : String} (h : Single b) (a : String) : split (a ++ "/" ++ b) = (a ++ "/", b) := by
  have plain : ∀ c ∈ b.toList.reverse, (c != '/') = true := fun c hc =>
    bne_iff_ne.2 fun heq => h (heq ▸ List.mem_reverse.1 hc)
  have back : (a ++ "/" ++ b).toList.reverse = b.toList.reverse ++ '/' :: a.toList.reverse := by simp
  simp only [split, back, List.dropWhile_append_of_pos plain, List.takeWhile_append_of_pos plain]
  simp [String.ofList_append]

theorem split_of_single {p : String} (h : Single p) : split p = ("", p) := by
  have plain : ∀ c ∈ p.toList.reverse, (c != '/') = true := fun c hc =>
    bne_iff_ne.2 fun heq => h (heq ▸ List.mem_reverse.1 hc)
  have hdrop : p.toList.reverse.dropWhile (· != '/') = [] := List.dropWhile_eq_nil_iff.2 plain
  have htake : p.toList.reverse.takeWhile (· != '/') = p.toList.reverse := List.takeWhile_eq_self_iff.2 plain
  simp [split, hdrop, htake]

/-! ## Segments -/

/-- The components behind the last empty one. -/
def trailing (cs : List String) : List String := (cs.reverse.takeWhile (· != "")).reverse

theorem segments_eq_trailing (p : String) : segments p = trailing (components (Text.dropEnd "/" p)) := rfl

/-- What stands in front of them is nothing, or ends in an empty component. -/
theorem exists_trailing (cs : List String) :
    ∃ lost, cs = lost ++ trailing cs ∧ (∀ c ∈ trailing cs, c ≠ "") ∧ (lost = [] ∨ ∃ above, lost = above ++ [""]) := by
  have parts := List.takeWhile_append_dropWhile (p := (· != "")) (l := cs.reverse)
  refine ⟨(cs.reverse.dropWhile (· != "")).reverse, ?_, fun c hc => ?_, ?_⟩
  · rw [trailing, ← List.reverse_append, parts, List.reverse_reverse]
  · simpa using List.mem_takeWhile_imp (List.mem_reverse.1 hc)
  · cases hd : cs.reverse.dropWhile (· != "") with
    | nil => exact .inl rfl
    | cons c above =>
      have hc : c = "" := by
        have := List.head_dropWhile_not (p := (· != "")) (l := cs.reverse) (by simp [hd])
        simpa [hd] using this
      exact .inr ⟨above.reverse, by rw [hc, List.reverse_cons]⟩

theorem trailing_concat (cs : List String) (c : String) :
    trailing (cs ++ [c]) = if c = "" then [] else trailing cs ++ [c] := by
  by_cases hc : c = "" <;> simp [trailing, hc]

theorem trailing_empty_cons (cs ds : List String) : trailing (cs ++ "" :: ds) = trailing ds := by
  have stop : ∀ es : List String, (es ++ "" :: cs.reverse).takeWhile (· != "") = es.takeWhile (· != "") := by
    intro es
    induction es with
    | nil => simp
    | cons e es ih => simp [List.takeWhile_cons, ih]
  simp [trailing, stop]

/-- A path is taken apart from its end: a slash is dropped, the last component is cut off, and what stands in front of
it is taken apart in turn, unless the component is empty. -/
theorem segments_step (p : String) :
    segments p =
      if (split (Text.dropEnd "/" p)).2 = "" then []
      else segments (split (Text.dropEnd "/" p)).1 ++ [(split (Text.dropEnd "/" p)).2] := by
  rw [segments_eq_trailing]
  rcases single_or_slash (Text.dropEnd "/" p) with h | ⟨a, b, hb, heq⟩
  · rw [split_of_single h, components_of_single h, ← List.nil_append [_], trailing_concat]
    rfl
  · rw [heq, split_slash hb, components_slash, components_of_single hb, trailing_concat, segments_eq_trailing,
      Text.dropEnd_append]

/-! ## Two slashes in a row -/

theorem components_doubled (a b : String) : components (a ++ "//" ++ b) = components a ++ "" :: components b := by
  have slashes : a ++ "//" ++ b = a ++ "/" ++ ("" ++ "/" ++ b) := by
    simp only [String.append_assoc]
    rfl
  rw [slashes, components_slash, components_slash, components_of_single (c := "") (by simp [Single])]
  rfl

theorem exists_slash {p : String} (h : p.toList.getLast? = some '/') : ∃ a, p = a ++ "/" := by
  obtain ⟨cs, hcs⟩ := List.getLast?_eq_some_iff.1 h
  exact ⟨String.ofList cs, by rw [← String.toList_inj, hcs]; simp⟩

theorem dropEnd_slash_of_ne {p : String} (h : p.toList.getLast? ≠ some '/') : Text.dropEnd "/" p = p := by
  have ends : Text.endsWith "/" p = false := by
    rw [← Bool.not_eq_true, Text.endsWith_iff]
    rintro ⟨a, rfl⟩
    exact h (by simp)
  exact Text.dropEnd_of_endsWith ends

/-- What stands in front of two slashes in a row is never reached. -/
theorem segments_doubled (a b : String) : segments (a ++ "//" ++ b) = segments b := by
  by_cases hs : b.toList.getLast? = some '/'
  · obtain ⟨c, rfl⟩ := exists_slash hs
    rw [← String.append_assoc, segments_eq_trailing, Text.dropEnd_append, components_doubled, trailing_empty_cons,
      segments_eq_trailing, Text.dropEnd_append]
  by_cases hb : b = ""
  · have slash : a ++ "//" ++ b = a ++ "/" ++ "" ++ "/" := by
      simp only [hb, String.append_empty, String.append_assoc]
      rfl
    rw [slash, segments_eq_trailing, Text.dropEnd_append, components_slash,
      components_of_single (c := "") (by simp [Single]), trailing_empty_cons, hb]
    rfl
  · have hend : (a ++ "//" ++ b).toList.getLast? ≠ some '/' := by
      rw [String.toList_append, List.getLast?_append, Option.or_of_isSome]
      · exact hs
      · simpa [Option.isSome_iff_ne_none] using hb
    rw [segments_eq_trailing, dropEnd_slash_of_ne hend, components_doubled, trailing_empty_cons, segments_eq_trailing,
      dropEnd_slash_of_ne hs]

/-! ## What is kept -/

/-- The components of a path that are not empty. -/
def names (p : String) : List String := (components p).filter (· != "")

theorem names_doubled (a b : String) : names (a ++ "//" ++ b) = names a ++ names b := by
  unfold names
  rw [components_doubled]
  simp

theorem names_slash_end (a : String) : names (a ++ "/") = names a := by
  unfold names
  rw [← String.append_empty (s := a ++ "/"), components_slash, components_of_single (c := "") (by simp [Single])]
  simp

theorem names_dropEnd (p : String) : names (Text.dropEnd "/" p) = names p := by
  by_cases hs : p.toList.getLast? = some '/'
  · obtain ⟨a, rfl⟩ := exists_slash hs
    rw [Text.dropEnd_append, names_slash_end]
  · rw [dropEnd_slash_of_ne hs]

/-- The segments stand behind what is lost, which is nothing or ends in an empty component. -/
theorem exists_lost (p : String) :
    ∃ lost, components (Text.dropEnd "/" p) = lost ++ segments p ∧
      names p = lost.filter (· != "") ++ segments p ∧ (lost = [] ∨ ∃ above, lost = above ++ [""]) := by
  obtain ⟨lost, hlost, hkept, hend⟩ := exists_trailing (components (Text.dropEnd "/" p))
  rw [← segments_eq_trailing] at hlost hkept
  refine ⟨lost, hlost, ?_, hend⟩
  have named : (segments p).filter (· != "") = segments p := List.filter_eq_self.2 (by simpa using hkept)
  rw [← names_dropEnd, names, hlost, List.filter_append, named]

/-- The segments are the last of the components that are not empty. -/
theorem segments_suffix_names (p : String) : segments p <:+ names p := by
  obtain ⟨lost, -, hnames, -⟩ := exists_lost p
  exact ⟨_, hnames.symm⟩

theorem eq_doubled {p : String} {above below : List String} (ha : above ≠ []) (hb : below ≠ [])
    (h : components p = above ++ "" :: below) : p = "/".intercalate above ++ "//" ++ "/".intercalate below := by
  rw [← intercalate_components p, h, String.intercalate_append_of_ne_nil ha (by simp),
    String.intercalate_cons_of_ne_nil hb]
  simp only [String.append_assoc, String.empty_append]
  rfl

/-- Behind an empty component in front of the segments there is another one, be it the one that was dropped. -/
theorem exists_below {p : String} {above : List String} (ha : above ≠ [])
    (h : components (Text.dropEnd "/" p) = above ++ [""] ++ segments p) :
    ∃ below, below ≠ [] ∧ components p = above ++ "" :: below := by
  by_cases hs : p.toList.getLast? = some '/'
  · obtain ⟨a, rfl⟩ := exists_slash hs
    rw [Text.dropEnd_append] at h
    refine ⟨segments (a ++ "/") ++ [""], by simp, ?_⟩
    rw [← String.append_empty (s := a ++ "/"), components_slash, components_of_single (c := "") (by simp [Single]), h]
    simp
  · rw [dropEnd_slash_of_ne hs] at h
    refine ⟨segments p, fun hnil => hs ?_, by simpa using h⟩
    rw [hnil, List.append_nil] at h
    rw [← intercalate_components p, h, String.intercalate_append_of_ne_nil ha (by simp)]
    simp

/-- A component that is lost stands in front of two slashes in a row. -/
theorem exists_doubled {p : String} (h : segments p ≠ names p) : ∃ a b, names a ≠ [] ∧ p = a ++ "//" ++ b := by
  obtain ⟨lost, hlost, hnames, rfl | ⟨above, rfl⟩⟩ := exists_lost p
  · exact absurd (by simpa using hnames.symm) h
  have named : above.filter (· != "") ≠ [] := by
    intro hnil
    refine h ?_
    simp [hnames, hnil]
  have ha : above ≠ [] := fun hnil => named (by rw [hnil]; rfl)
  obtain ⟨below, hb, hp⟩ := exists_below ha hlost
  have single : ∀ c ∈ above, Single c := fun c hc => single_of_mem_components (p := p) (by simp [hp, hc])
  refine ⟨"/".intercalate above, _, ?_, eq_doubled ha hb hp⟩
  rwa [names, components_intercalate_of_single ha single]

/-- The segments of a path are the components that are not empty, exactly if no name stands in front of two slashes in
a row. Otherwise they are the last of them: what stands in front of two slashes is lost, for the place of an output as
well. -/
theorem segments_eq_names_iff (p : String) :
    (segments p = names p ↔ ¬ ∃ a b, names a ≠ [] ∧ p = a ++ "//" ++ b) ∧ segments p <:+ names p ∧
      ∀ a b, segments (a ++ "//" ++ b) = segments b ∧
        ∀ spell dir, placeBelow spell dir (a ++ "//" ++ b) = placeBelow spell dir b := by
  refine ⟨⟨?_, fun h => not_not.1 fun hne => h (exists_doubled hne)⟩, segments_suffix_names p, fun a b => ?_⟩
  · rintro hp ⟨a, b, ha, rfl⟩
    rw [segments_doubled, names_doubled] at hp
    have shorter := (segments_suffix_names b).length_le
    rw [hp, List.length_append] at shorter
    have := List.length_pos_iff.2 ha
    omega
  · refine ⟨segments_doubled a b, fun spell dir => ?_⟩
    unfold placeBelow
    rw [segments_doubled]

/-- The directory `a` is lost. -/
theorem segments_lost : segments "a//b" = ["b"] ∧ names "a//b" = ["a", "b"] := by decide

end DiagramMarkup.Files.Path
