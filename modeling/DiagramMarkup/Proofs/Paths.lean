import DiagramMarkup.Files.Path
import DiagramMarkup.Proofs.Texts

/-!
# Paths by their components

A path is read here as the list of its components, which slashes divide.

1. Joining texts by slashes joins their lists of components (`Path.components_intercalate`).
2. Cleaning leaves parents first and names behind them (`Path.tidy_cleanComponents`), so that cleaning a second time
   changes nothing (`Path.clean_clean`).
3. A relative path leads out of the directory it starts from exactly if a walk along its components does
   (`Path.parent_mem_cleanComponents_iff`).
4. What is joined to a directory without parents stays within it (`Path.Within.join`).
-/

namespace DiagramMarkup

namespace Files.Path

/-! ## Components -/

/-- A text without slashes. -/
def Single (c : String) : Prop := '/' ∉ c.toList

theorem components_eq (p : String) : components p = (p.toList.splitOn '/').map String.ofList := by
  unfold components Text.splitAt
  rw [Text.splitWhere_eq_splitOnP]
  rfl

theorem components_of_single {c : String} (h : Single c) : components c = [c] := by
  rw [components_eq, List.splitOn_eq_singleton h, List.map_singleton, String.ofList_toList]

theorem single_of_mem_components {c p : String} (h : c ∈ components p) : Single c := by
  obtain ⟨w, hw, rfl⟩ := List.mem_map.1 h
  intro hc
  rw [String.toList_ofList] at hc
  exact absurd (Text.not_sep_of_mem_splitWhere hw _ hc) (by simp)

theorem components_slash (a b : String) : components (a ++ "/" ++ b) = components a ++ components b := by
  have chars : (a ++ "/" ++ b).toList = a.toList ++ '/' :: b.toList := by simp
  rw [components_eq, chars, List.splitOn_append_cons_self, List.map_append, ← components_eq, ← components_eq]

theorem components_intercalate {ps : List String} (h : ps ≠ []) :
    components ("/".intercalate ps) = ps.flatMap components := by
  induction ps with
  | nil => exact absurd rfl h
  | cons p ps ih =>
    by_cases hps : ps = []
    · subst hps
      simp
    · rw [String.intercalate_cons_of_ne_nil hps, components_slash, ih hps, List.flatMap_cons]

theorem components_intercalate_of_single {cs : List String} (h : cs ≠ []) (hs : ∀ c ∈ cs, Single c) :
    components ("/".intercalate cs) = cs := by
  rw [components_intercalate h]
  induction cs with
  | nil => rfl
  | cons c cs ih =>
    rw [List.flatMap_cons, components_of_single (hs c List.mem_cons_self)]
    by_cases hcs : cs = []
    · simp [hcs]
    · rw [ih hcs fun d hd => hs d (List.mem_cons_of_mem c hd)]
      rfl

/-! ## Cleaning -/

/-- Does a component lead to another directory? -/
def moves (c : String) : Bool := c != "" && c != "."

/-- A component that is the name of a file or of a directory below the one it is read in. -/
structure IsName (c : String) : Prop where
  ne_empty : c ≠ ""
  ne_here : c ≠ "."
  ne_parent : c ≠ ".."
  single : Single c

theorem IsName.moves {c : String} (h : IsName c) : moves c = true := by
  simp [Path.moves, h.ne_empty, h.ne_here]

/-- A component that is no parent leads nowhere else or to the directory it names. -/
theorem isName_of_moves {c : String} (hs : Single c) (hp : c ≠ "..") (hm : moves c = true) : IsName c := by
  simp only [Path.moves, Bool.and_eq_true, bne_iff_ne] at hm
  exact ⟨hm.1, hm.2, hp, hs⟩

theorem addComponent_of_not_moves {r : Bool} {stack : List String} {c : String} (h : moves c = false) :
    addComponent r stack c = stack := by
  unfold addComponent
  rw [if_pos]
  revert h
  by_cases h₁ : c = "" <;> by_cases h₂ : c = "." <;> simp [Path.moves, h₁, h₂]

theorem addComponent_of_moves {r : Bool} {stack : List String} {c : String} (h : moves c = true) (hp : c ≠ "..") :
    addComponent r stack c = c :: stack := by
  simp only [Path.moves, Bool.and_eq_true, bne_iff_ne] at h
  unfold addComponent
  rw [if_neg (by simp [h.1, h.2]), if_neg (by simp [hp])]

/-- Without parents, cleaning only leaves components out. -/
theorem foldl_addComponent {r : Bool} {cs : List String} (h : ".." ∉ cs) (stack : List String) :
    cs.foldl (addComponent r) stack = (cs.filter moves).reverse ++ stack := by
  induction cs generalizing stack with
  | nil => rfl
  | cons c cs ih =>
    simp only [List.mem_cons, not_or] at h
    rw [List.foldl_cons, ih h.2]
    cases hm : moves c with
    | false => rw [addComponent_of_not_moves hm, List.filter_cons_of_neg (by simp [hm])]
    | true => simp [addComponent_of_moves hm (Ne.symm h.1), List.filter_cons_of_pos hm]

theorem cleanComponents_append {r : Bool} (as : List String) {bs : List String} (h : ".." ∉ bs) :
    cleanComponents r (as ++ bs) = cleanComponents r as ++ bs.filter moves := by
  unfold cleanComponents
  rw [List.foldl_append, foldl_addComponent h]
  simp

theorem cleanComponents_empty_cons (r : Bool) (cs : List String) : cleanComponents r ("" :: cs) = cleanComponents r cs :=
  rfl

/-- What cleaning leaves, the last component first: names, and parents before them, which a path from the root has
not. -/
def Tidy (r : Bool) (stack : List String) : Prop :=
  ∃ names k, stack = names ++ List.replicate k ".." ∧ (∀ c ∈ names, IsName c) ∧ (r = true → k = 0)

theorem tidy_addComponent {r : Bool} {stack : List String} (h : Tidy r stack) {c : String} (hc : Single c) :
    Tidy r (addComponent r stack c) := by
  obtain ⟨names, k, rfl, hn, hk⟩ := h
  cases hm : moves c with
  | false => rw [addComponent_of_not_moves hm]; exact ⟨names, k, rfl, hn, hk⟩
  | true =>
    by_cases hp : c = ".."
    · subst hp
      unfold addComponent
      rw [if_neg (by decide), if_pos (by decide)]
      match names, k with
      | [], 0 =>
        cases r with
        | true => exact ⟨[], 0, rfl, by simp, fun _ => rfl⟩
        | false => exact ⟨[], 1, rfl, by simp, by simp⟩
      | [], k + 1 => exact ⟨[], k + 2, rfl, by simp, fun h => absurd (hk h) (by simp)⟩
      | n :: names, k =>
        have hn' := (hn n List.mem_cons_self).ne_parent
        simp only [List.cons_append, beq_iff_eq, if_neg hn']
        exact ⟨names, k, rfl, fun d hd => hn d (List.mem_cons_of_mem n hd), hk⟩
    · rw [addComponent_of_moves hm hp]
      refine ⟨c :: names, k, rfl, fun d hd => ?_, hk⟩
      rcases List.mem_cons.1 hd with rfl | hd
      · exact isName_of_moves hc hp hm
      · exact hn d hd

theorem tidy_foldl {r : Bool} {cs : List String} (hs : ∀ c ∈ cs, Single c) {stack : List String} (h : Tidy r stack) :
    Tidy r (cs.foldl (addComponent r) stack) := by
  induction cs generalizing stack with
  | nil => exact h
  | cons c cs ih =>
    exact ih (fun d hd => hs d (List.mem_cons_of_mem c hd)) (tidy_addComponent h (hs c List.mem_cons_self))

theorem tidy_cleanComponents (r : Bool) (p : String) : Tidy r (cleanComponents r (components p)).reverse := by
  unfold cleanComponents
  rw [List.reverse_reverse]
  exact tidy_foldl (fun _ => single_of_mem_components) ⟨[], 0, rfl, by simp, fun _ => rfl⟩

theorem cleanComponents_of_tidy {r : Bool} {cs : List String} (h : Tidy r cs.reverse) : cleanComponents r cs = cs := by
  obtain ⟨names, k, hcs, hn, hk⟩ := h
  have parents : (List.replicate k "..").foldl (addComponent r) [] = List.replicate k ".." := by
    cases r with
    | true => rw [hk rfl]; rfl
    | false =>
      clear hcs hk
      induction k with
      | zero => rfl
      | succ k ih =>
        rw [List.replicate_succ', List.foldl_append, ih, ← List.replicate_succ']
        cases k <;> rfl
  have kept : names.reverse.filter moves = names.reverse :=
    List.filter_eq_self.2 fun c hc => (hn c (List.mem_reverse.1 hc)).moves
  have noParent : ".." ∉ names.reverse := fun hc => (hn _ (List.mem_reverse.1 hc)).ne_parent rfl
  rw [List.reverse_eq_iff, List.reverse_append, List.reverse_replicate] at hcs
  rw [hcs, cleanComponents_append _ noParent, kept]
  unfold cleanComponents
  rw [parents, List.reverse_replicate]

/-- What cleaning leaves is a parent or a name. -/
theorem Tidy.eq_parent_or_isName {r : Bool} {stack : List String} (h : Tidy r stack) {c : String} (hc : c ∈ stack) :
    c = ".." ∨ IsName c := by
  obtain ⟨names, k, rfl, hn, -⟩ := h
  rcases List.mem_append.1 hc with hc | hc
  · exact .inr (hn c hc)
  · exact .inl (List.eq_of_mem_replicate hc)

theorem written_of_mem_cleanComponents {r : Bool} {p c : String} (hc : c ∈ cleanComponents r (components p)) :
    Single c ∧ c ≠ "" := by
  rcases (tidy_cleanComponents r p).eq_parent_or_isName (List.mem_reverse.2 hc) with rfl | hn
  · exact ⟨by simp [Single], by decide⟩
  · exact ⟨hn.single, hn.ne_empty⟩

/-- A path from the root has no parents left. -/
theorem isName_of_mem_cleanComponents {p c : String} (hc : c ∈ cleanComponents true (components p)) : IsName c := by
  obtain ⟨names, k, hs, hn, hk⟩ := tidy_cleanComponents true p
  have hmem : c ∈ (cleanComponents true (components p)).reverse := List.mem_reverse.2 hc
  rw [hs, hk rfl, List.replicate_zero, List.append_nil] at hmem
  exact hn c hmem

/-! ## Cleaned paths -/

/-- The path from the root along components. -/
def rooted (cs : List String) : String := "/" ++ "/".intercalate cs

theorem isAbsolute_append {a b : String} (h : a ≠ "") : isAbsolute (a ++ b) = isAbsolute a := by
  obtain ⟨c, cs, ha⟩ := List.exists_cons_of_ne_nil fun hn => h (String.toList_eq_nil_iff.1 hn)
  simp [isAbsolute, ha]

theorem isAbsolute_of_single {c : String} (h : Single c) : isAbsolute c = false := by
  unfold isAbsolute
  cases hc : c.toList with
  | nil => rfl
  | cons d ds =>
    rw [Single, hc, List.mem_cons, not_or] at h
    simpa using Ne.symm h.1

theorem isAbsolute_rooted (cs : List String) : isAbsolute (rooted cs) = true :=
  isAbsolute_append (by decide)

theorem append_ne_empty {a : String} (h : a ≠ "") (b : String) : a ++ b ≠ "" := by
  intro hab
  exact h (String.append_eq_empty_iff.1 hab).1

theorem intercalate_cons_ne_empty {c : String} (h : c ≠ "") (cs : List String) : "/".intercalate (c :: cs) ≠ "" := by
  by_cases hcs : cs = []
  · simpa [hcs] using h
  · rw [String.intercalate_cons_of_ne_nil hcs]
    exact append_ne_empty (append_ne_empty h _) _

theorem isAbsolute_intercalate_cons {c : String} (h : c ≠ "") (cs : List String) :
    isAbsolute ("/".intercalate (c :: cs)) = isAbsolute c := by
  by_cases hcs : cs = []
  · simp [hcs]
  · rw [String.intercalate_cons_of_ne_nil hcs, isAbsolute_append (append_ne_empty h _), isAbsolute_append h]

theorem components_rooted {cs : List String} (hs : ∀ c ∈ cs, Single c) :
    components (rooted cs) = "" :: if cs = [] then [""] else cs := by
  have slash : components (rooted cs) = components "" ++ components ("/".intercalate cs) := components_slash "" _
  rw [slash, components_of_single (by simp [Single])]
  split
  · next h => rw [h]; rfl
  · next h => rw [components_intercalate_of_single h hs]; rfl

theorem cleanComponents_rooted {cs : List String} (hn : ∀ c ∈ cs, IsName c) :
    cleanComponents true (components (rooted cs)) = cs := by
  rw [components_rooted fun c hc => (hn c hc).single, cleanComponents_empty_cons]
  split
  · next h => rw [h]; rfl
  · exact cleanComponents_of_tidy ⟨cs.reverse, 0, by simp, fun c hc => hn c (List.mem_reverse.1 hc), fun _ => rfl⟩

theorem clean_of_absolute {p : String} (h : isAbsolute p = true) :
    clean p = rooted (cleanComponents true (components p)) := by
  simp only [clean, h, if_true, rooted]

theorem clean_of_relative {p : String} (h : isAbsolute p = false) :
    clean p = if cleanComponents false (components p) = [] then "."
      else "/".intercalate (cleanComponents false (components p)) := by
  simp only [clean, h, Bool.false_eq_true, if_false]
  cases hcs : cleanComponents false (components p) with
  | nil => rfl
  | cons c cs =>
    have hc : c ≠ "" := (written_of_mem_cleanComponents (hcs ▸ List.mem_cons_self)).2
    rw [if_neg (by simpa using intercalate_cons_ne_empty hc cs), if_neg (by simp)]

theorem components_clean_of_absolute {p : String} (h : isAbsolute p = true) :
    components (clean p) = "" :: if cleanComponents true (components p) = [] then [""]
      else cleanComponents true (components p) := by
  rw [clean_of_absolute h, components_rooted fun _ hc => (written_of_mem_cleanComponents hc).1]

theorem components_clean_of_relative {p : String} (h : isAbsolute p = false) :
    components (clean p) = if cleanComponents false (components p) = [] then ["."]
      else cleanComponents false (components p) := by
  rw [clean_of_relative h]
  split
  · exact components_of_single (by simp [Single])
  · next hne => exact components_intercalate_of_single hne fun _ hc => (written_of_mem_cleanComponents hc).1

theorem isAbsolute_clean (p : String) : isAbsolute (clean p) = isAbsolute p := by
  cases h : isAbsolute p with
  | true => rw [clean_of_absolute h, isAbsolute_rooted]
  | false =>
    rw [clean_of_relative h]
    cases hcs : cleanComponents false (components p) with
    | nil => rfl
    | cons c cs =>
      obtain ⟨single, ne⟩ := written_of_mem_cleanComponents (p := p) (hcs ▸ List.mem_cons_self)
      rw [if_neg (by simp), isAbsolute_intercalate_cons ne, isAbsolute_of_single single]

theorem cleanComponents_clean (p : String) :
    cleanComponents (isAbsolute p) (components (clean p)) = cleanComponents (isAbsolute p) (components p) := by
  have settled := cleanComponents_of_tidy (tidy_cleanComponents (isAbsolute p) p)
  cases h : isAbsolute p with
  | true =>
    rw [components_clean_of_absolute h, cleanComponents_empty_cons]
    split
    · next hnil => rw [hnil]; rfl
    · rwa [h] at settled
  | false =>
    rw [components_clean_of_relative h]
    split
    · next hnil => rw [hnil]; rfl
    · rwa [h] at settled

/-- Cleaning a cleaned path changes nothing. -/
theorem clean_clean (p : String) : clean (clean p) = clean p := by
  rw [clean, isAbsolute_clean, cleanComponents_clean]
  rfl

/-- A parent among the components of a cleaned path is one that cleaning has left. -/
theorem parent_mem_components_clean (p : String) :
    ".." ∈ components (clean p) ↔ ".." ∈ cleanComponents (isAbsolute p) (components p) := by
  cases h : isAbsolute p with
  | true =>
    rw [components_clean_of_absolute h]
    split
    · next hnil => simp [hnil]
    · simp
  | false =>
    rw [components_clean_of_relative h]
    split
    · next hnil => simp [hnil]
    · rfl

theorem no_parent_clean {p : String} (h : ".." ∉ components p) : ".." ∉ components (clean p) := by
  rw [parent_mem_components_clean, ← List.nil_append (components p), cleanComponents_append [] h]
  simp [cleanComponents, h]

/-- What stands up to the last slash is nothing, or ends in the slash. -/
theorem split_fst_cases (p : String) :
    (split p).1 = "" ∨ ∃ a b, (split p).1 = a ++ "/" ∧ p = a ++ "/" ++ b := by
  have parts := List.takeWhile_append_dropWhile (p := (· != '/')) (l := p.toList.reverse)
  cases hd : p.toList.reverse.dropWhile (· != '/') with
  | nil =>
    left
    simp [split, hd]
  | cons c cs =>
    right
    have hc : c = '/' := by
      have := List.head_dropWhile_not (p := (· != '/')) (l := p.toList.reverse) (by simp [hd])
      simpa [hd] using this
    subst hc
    refine ⟨String.ofList cs.reverse, String.ofList (p.toList.reverse.takeWhile (· != '/')).reverse, ?_, ?_⟩
    · simp [split, hd, String.ofList_append]
    · rw [hd] at parts
      refine String.toList_inj.1 ?_
      calc p.toList = p.toList.reverse.reverse := (List.reverse_reverse _).symm
        _ = (p.toList.reverse.takeWhile (· != '/') ++ '/' :: cs).reverse := by rw [parts]
        _ = _ := by simp

theorem no_parent_dir {p : String} (h : ".." ∉ components p) : ".." ∉ components (dir p) := by
  refine no_parent_clean ?_
  rcases split_fst_cases p with hs | ⟨a, b, hs, hp⟩
  · rw [hs]
    decide
  · rw [hs, ← String.append_empty (s := a ++ "/"), components_slash]
    rw [hp, components_slash, List.mem_append, not_or] at h
    rw [List.mem_append, not_or]
    exact ⟨h.1, by decide⟩

/-! ## Walks -/

/-- Does a walk along components, begun `depth` directories below a start, never lead to the parent of the start? -/
def staysBelow : (depth : Nat) → List String → Bool
  | _, [] => true
  | depth, c :: cs =>
    if c == ".." then depth != 0 && staysBelow (depth - 1) cs
    else staysBelow (if moves c then depth + 1 else depth) cs

theorem staysBelow_of_no_parent {cs : List String} (h : ".." ∉ cs) (depth : Nat) : staysBelow depth cs = true := by
  induction cs generalizing depth with
  | nil => rfl
  | cons c cs ih =>
    simp only [List.mem_cons, not_or] at h
    rw [staysBelow, if_neg (by simpa using Ne.symm h.1)]
    exact ih h.2 _

theorem staysBelow_append_empty (depth : Nat) (cs : List String) :
    staysBelow depth (cs ++ [""]) = staysBelow depth cs := by
  induction cs generalizing depth with
  | nil => rfl
  | cons c cs ih => simp only [List.cons_append, staysBelow, ih]

/-- A parent that stands before everything else is never taken away again. -/
theorem parent_mem_addComponent {stack : List String} (h : ".." ∈ stack) (c : String) :
    ".." ∈ addComponent false stack c := by
  unfold addComponent
  split
  · exact h
  split
  · cases stack with
    | nil => simp
    | cons top rest =>
      by_cases ht : top = ".."
      · simp [ht]
      · simpa [ht, Ne.symm ht] using h
  · exact List.mem_cons_of_mem c h

theorem parent_mem_foldl {stack : List String} (h : ".." ∈ stack) (cs : List String) :
    ".." ∈ cs.foldl (addComponent false) stack := by
  induction cs generalizing stack with
  | nil => exact h
  | cons c cs ih => exact ih (parent_mem_addComponent h c)

theorem parent_mem_foldl_iff {stack : List String} (h : ".." ∉ stack) (cs : List String) :
    ".." ∈ cs.foldl (addComponent false) stack ↔ staysBelow stack.length cs = false := by
  induction cs generalizing stack with
  | nil => simp [staysBelow, h]
  | cons c cs ih =>
    rw [List.foldl_cons]
    by_cases hp : c = ".."
    · subst hp
      cases stack with
      | nil => exact iff_of_true (parent_mem_foldl (by decide) cs) rfl
      | cons top rest =>
        simp only [List.mem_cons, not_or] at h
        have back : addComponent false (top :: rest) ".." = rest := by
          simp [addComponent, Ne.symm h.1]
        rw [back, ih h.2]
        rfl
    · rw [staysBelow, if_neg (by simpa using hp)]
      cases hm : moves c with
      | false =>
        rw [addComponent_of_not_moves hm, ih h]
        rfl
      | true =>
        rw [addComponent_of_moves hm hp, ih (by simp [h, Ne.symm hp])]
        rfl

/-- Cleaning leaves a parent exactly if a walk along the components leaves the directory it starts from. -/
theorem parent_mem_cleanComponents_iff (cs : List String) :
    ".." ∈ cleanComponents false cs ↔ staysBelow 0 cs = false := by
  unfold cleanComponents
  rw [List.mem_reverse, parent_mem_foldl_iff (by simp)]
  rfl

/-- A relative path that, once it is cleaned, has no parent among its components. -/
def Confined (p : String) : Prop := isAbsolute p = false ∧ ".." ∉ components (clean p)

theorem confined_clean_iff (p : String) :
    Confined (clean p) ↔ isAbsolute p = false ∧ staysBelow 0 (components p) = true := by
  unfold Confined
  rw [clean_clean, isAbsolute_clean, parent_mem_components_clean]
  refine and_congr_right fun h => ?_
  rw [h, parent_mem_cleanComponents_iff, Bool.not_eq_false]

/-- Joined paths are clean already. -/
theorem Confined.no_parent {ps : List String} (h : Confined (join ps)) : ".." ∉ components (join ps) := by
  unfold join at h ⊢
  cases hps : ps.filter (· != "") with
  | nil => decide
  | cons q qs =>
    simp only [hps] at h
    have := h.2
    rwa [clean_clean] at this

/-- The path of `name` in a directory `dir` below the start is confined exactly if it does not start at the root and a
walk along both stays below the start. -/
theorem confined_join_iff {dir : String} (hdir : isAbsolute dir = false) (name : String) :
    Confined (join [dir, name]) ↔
      (dir = "" → isAbsolute name = false) ∧ staysBelow 0 (components dir ++ components name) = true := by
  have skip : ∀ cs, staysBelow 0 ("" :: cs) = staysBelow 0 cs := fun _ => rfl
  have none : components "" = [""] := components_of_single (by simp [Single])
  by_cases hd : dir = "" <;> by_cases hn : name = ""
  · subst hd hn
    exact iff_of_true ⟨rfl, by decide⟩ ⟨fun _ => rfl, by decide⟩
  · have single : join [dir, name] = clean name := by simp [join, hd, hn]
    rw [single, confined_clean_iff, hd, none, List.singleton_append, skip]
    simp
  · have single : join [dir, name] = clean dir := by simp [join, hd, hn]
    rw [single, confined_clean_iff, hn, none, staysBelow_append_empty]
    simp [hd, hdir]
  · have both : join [dir, name] = clean (dir ++ "/" ++ name) := by
      simp [join, hd, hn, String.intercalate_cons_of_ne_nil]
    rw [both, confined_clean_iff, components_slash, isAbsolute_append (append_ne_empty hd _), isAbsolute_append hd]
    simp [hd, hdir]

/-! ## Directories -/

/-- A path from the root that is the directory `dest` or lies below it, both written without parents. -/
def Within (dest p : String) : Prop :=
  ∃ above below, (∀ c ∈ above ++ below, IsName c) ∧ dest = rooted above ∧ p = rooted (above ++ below)

/-- What lies within a directory starts with its path. -/
theorem Within.isPrefix {dest p : String} (h : Within dest p) : dest.toList <+: p.toList := by
  obtain ⟨above, below, -, rfl, rfl⟩ := h
  unfold rooted
  by_cases ha : above = []
  · simp [ha]
  by_cases hb : below = []
  · simp [hb]
  · rw [String.intercalate_append_of_ne_nil ha hb]
    simp

theorem within_self {dest : String} (habs : isAbsolute dest = true) (hclean : clean dest = dest) : Within dest dest := by
  refine ⟨cleanComponents true (components dest), [], fun c hc => ?_, ?_, ?_⟩
  · rw [List.append_nil] at hc
    exact isName_of_mem_cleanComponents hc
  · rw [← clean_of_absolute habs, hclean]
  · rw [List.append_nil, ← clean_of_absolute habs, hclean]

theorem Within.join {dest dir : String} (h : Within dest dir) {ps : List String} (hps : ∀ p ∈ ps, ".." ∉ components p) :
    Within dest (join (dir :: ps)) := by
  obtain ⟨above, below, hn, hdest, hdir⟩ := h
  have ne : dir ≠ "" := hdir ▸ append_ne_empty (by decide) _
  have absolute : isAbsolute ("/".intercalate (dir :: ps.filter (· != ""))) = true := by
    rw [isAbsolute_intercalate_cons ne, hdir, isAbsolute_rooted]
  have joined : Path.join (dir :: ps) = clean ("/".intercalate (dir :: ps.filter (· != ""))) := by
    unfold Path.join
    rw [List.filter_cons_of_pos (by simpa using ne)]
  have start : cleanComponents true (components dir) = above ++ below := by rw [hdir, cleanComponents_rooted hn]
  have added : ".." ∉ (ps.filter (· != "")).flatMap components := by
    simp only [List.mem_flatMap, not_exists, not_and]
    exact fun p hp => hps p (List.mem_filter.1 hp).1
  refine ⟨above, below ++ ((ps.filter (· != "")).flatMap components).filter moves, fun c hc => ?_, hdest, ?_⟩
  · rw [← List.append_assoc] at hc
    rcases List.mem_append.1 hc with hc | hc
    · exact hn c hc
    · obtain ⟨hc, hm⟩ := List.mem_filter.1 hc
      obtain ⟨p, -, hcp⟩ := List.mem_flatMap.1 hc
      exact isName_of_moves (single_of_mem_components hcp) (fun h => added (h ▸ hc)) hm
  · rw [joined, clean_of_absolute absolute, components_intercalate (List.cons_ne_nil _ _), List.flatMap_cons,
      cleanComponents_append _ added, start, List.append_assoc]

end Files.Path

end DiagramMarkup
