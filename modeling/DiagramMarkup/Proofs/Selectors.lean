import DiagramMarkup.Css.Selector
import DiagramMarkup.Proofs.Texts
import DiagramMarkup.Proofs.Words

/-!
# What selectors match

A simple selector is the name of an element, a class behind a point, or both (`Spells`).

1. A part of a selector is read as the simple selector that it spells; of any other part only the text is kept
   (`parseSimple_part`).
2. What stands in front of the last part is recorded only if its own last part is a simple selector (`exists_around`).
   If it is not, the selector is left with its last part and applies like a simple one (`applies_parseParts`).
3. Texts with combinators or attributes are not read (`not_spells_of_combining`), and texts without blanks are a single
   part (`applies_parseSimple`). So every selector that applies is simple, or has lost what stood in front of its last
   part.
-/

namespace DiagramMarkup.Css.Selector

/-! ## Simple selectors -/

/-- Combinators, the start of an attribute, and blanks. -/
def joints : List Char := ['+', '~', '>', '[', ' ', '\t', '\n']

/-- The characters that have a meaning of their own in selectors. -/
def marks : List Char := '.' :: ':' :: '#' :: joints

/-- The text is a simple selector: the name of an element, a class behind a point, or both. What is missing is empty. -/
structure Spells (text element cls : String) : Prop where
  text_eq : text = if cls = "" then element else element ++ "." ++ cls
  present : element ≠ "" ∨ cls ≠ ""
  plain : ∀ c ∈ element.toList ++ cls.toList, c ∉ marks

/-- The text is a simple selector. -/
def Simple (text : String) : Prop := ∃ element cls, Spells text element cls

/-- An element has the name, or the name is a star or missing; and it has the class unless that is missing. -/
def Satisfied (element cls name : String) (classes : List String) : Prop :=
  (element = "" ∨ element = "*" ∨ element = name) ∧ (cls = "" ∨ cls ∈ classes)

section Simple

variable {text element cls name : String} {classes : List String}

theorem Spells.mem (h : Spells text element cls) {c : Char} (hc : c ∈ text.toList) :
    c ∈ element.toList ++ cls.toList ∨ c = '.' := by
  rw [h.text_eq] at hc
  split at hc
  · exact .inl (List.mem_append_left _ hc)
  · simp only [String.toList_append, List.mem_append] at hc ⊢
    rcases hc with (hc | hc) | hc
    · exact .inl (.inl hc)
    · exact .inr (List.mem_singleton.1 hc)
    · exact .inl (.inr hc)

theorem Spells.ne_empty (h : Spells text element cls) : text ≠ "" := by
  rw [h.text_eq]
  split
  · next hcls => exact h.present.resolve_right (not_not.2 hcls)
  · simp

/-- A simple selector is taken apart at its point. -/
theorem Spells.cut_eq (h : Spells text element cls) :
    Text.cut "." text = if cls = "" then none else some (element, cls) := by
  have hpoint : ∀ {c}, c ∈ element.toList ++ cls.toList → c ≠ '.' := fun hc heq => h.plain _ hc (by simp [heq, marks])
  have helement : '.' ∉ element.toList := fun hm => hpoint (List.mem_append_left _ hm) rfl
  rw [h.text_eq]
  split
  · rw [Text.cut, show ".".toList = ['.'] from rfl, Text.breakOn_eq_none helement, Option.map_none]
  · rw [Text.cut, show ".".toList = ['.'] from rfl]
    have hsplit : (element ++ "." ++ cls).toList = element.toList ++ '.' :: cls.toList := by simp
    rw [hsplit, Text.breakOn_singleton helement]
    simp

theorem Spells.unique {element' cls' : String} (h : Spells text element cls) (h' : Spells text element' cls') :
    element = element' ∧ cls = cls' := by
  have hcut := h.cut_eq.symm.trans h'.cut_eq
  by_cases hcls : cls = "" <;> by_cases hcls' : cls' = ""
  · have htext := h.text_eq
    have htext' := h'.text_eq
    rw [if_pos hcls] at htext
    rw [if_pos hcls'] at htext'
    exact ⟨htext.symm.trans htext', hcls.trans hcls'.symm⟩
  · simp [hcls, hcls'] at hcut
  · simp [hcls, hcls'] at hcut
  · simpa [hcls, hcls'] using hcut

/-- A simple selector holds none of the marks but the point. -/
theorem Spells.not_mem (h : Spells text element cls) {c : Char} (hc : c ∈ marks) (hpoint : c ≠ '.') :
    c ∉ text.toList := fun hm => by
  rcases h.mem hm with hm | rfl
  · exact h.plain c hm hc
  · exact hpoint rfl

theorem Spells.not_joint (h : Spells text element cls) {c : Char} (hc : c ∈ joints) : c ∉ text.toList :=
  h.not_mem (List.mem_cons_of_mem _ (List.mem_cons_of_mem _ (List.mem_cons_of_mem _ hc)))
    fun heq => (by decide : '.' ∉ joints) (heq ▸ hc)

theorem Spells.exists_iff {P : String → String → Prop} (h : Spells text element cls) :
    (∃ e c, Spells text e c ∧ P e c) ↔ P element cls := by
  refine ⟨fun hs => ?_, fun hs => ⟨element, cls, h, hs⟩⟩
  obtain ⟨e, c, h', hs⟩ := hs
  obtain ⟨rfl, rfl⟩ := h'.unique h
  exact hs

theorem parseSimple_of_spells (h : Spells (Text.trim text) element cls) :
    (parseSimple text).1 = { raw := Text.trim text, element := element, cls := cls } := by
  unfold parseSimple
  generalize Text.trim text = t at h ⊢
  have hcolon : Text.hasChar ':' t = false := by
    simpa [Text.hasChar] using h.not_mem (c := ':') (by decide) (by decide)
  have hhash : Text.hasChar '#' t = false := by
    simpa [Text.hasChar] using h.not_mem (c := '#') (by decide) (by decide)
  simp only [beq_iff_eq, h.ne_empty, hcolon, hhash, h.cut_eq, if_false, Bool.false_eq_true]
  by_cases hcls : cls = ""
  · simp only [hcls, if_true]
    rw [h.text_eq, if_pos hcls]
  · have hpoint : Text.hasChar '.' cls = false := by
      simpa [Text.hasChar] using fun hm => h.plain '.' (List.mem_append_right _ hm) (by decide)
    simp only [hcls, if_false, hpoint, Bool.or_self, Bool.false_eq_true, beq_eq_false_iff_ne.2 hcls]

/-- Without other marks than points, a text is a simple selector if something but no further point stands behind the
first. -/
theorem simple_of_cut (hempty : text ≠ "") (hcolon : ':' ∉ text.toList) (hhash : '#' ∉ text.toList)
    (hjoints : ∀ c ∈ text.toList, c ∉ joints)
    (hcut : ∀ element cls, Text.cut "." text = some (element, cls) → cls ≠ "" ∧ '.' ∉ cls.toList) : Simple text := by
  have hmarks : ∀ c ∈ text.toList, c ≠ '.' → c ∉ marks := fun c hc hpoint => by
    have hne : ∀ d ∉ text.toList, c ≠ d := fun d hd heq => hd (heq ▸ hc)
    simp [marks, hpoint, hne ':' hcolon, hne '#' hhash, hjoints c hc]
  by_cases hpoint : '.' ∈ text.toList
  · obtain ⟨before, after, hsplit, hbefore⟩ := List.eq_append_cons_of_mem hpoint
    have heq : text = String.ofList before ++ "." ++ String.ofList after := by
      rw [← String.toList_inj, hsplit]
      simp
    obtain ⟨hne, hafter⟩ := hcut (String.ofList before) (String.ofList after) (by
      rw [Text.cut, show ".".toList = ['.'] from rfl, hsplit, Text.breakOn_singleton hbefore]
      rfl)
    refine ⟨_, _, by rw [if_neg hne, ← heq], .inr hne, fun c hc => ?_⟩
    simp only [String.toList_ofList, List.mem_append] at hc hafter
    have hmem : c ∈ text.toList := by
      rw [hsplit]
      exact hc.elim (List.mem_append_left _) fun hc => List.mem_append_right _ (List.mem_cons_of_mem _ hc)
    exact hmarks c hmem fun heq => hc.elim (fun hc => hbefore (heq ▸ hc)) fun hc => hafter (heq ▸ hc)
  · refine ⟨text, "", by rw [if_pos rfl], .inl hempty, fun c hc => ?_⟩
    have hmem : c ∈ text.toList := by simpa using hc
    exact hmarks c hmem fun heq => hpoint (heq ▸ hmem)

theorem parseSimple_of_not_simple (h : ¬ Simple (Text.trim text))
    (hjoints : ∀ c ∈ (Text.trim text).toList, c ∉ joints) : (parseSimple text).1 = { raw := Text.trim text } := by
  unfold parseSimple
  generalize Text.trim text = t at h hjoints ⊢
  simp only
  by_cases hempty : t = ""
  · simp [hempty]
  by_cases hcolon : Text.hasChar ':' t = true
  · simp [hempty, hcolon]
  by_cases hhash : Text.hasChar '#' t = true
  · simp [hempty, hcolon, hhash]
  simp only [beq_iff_eq, hempty, hcolon, hhash, if_false]
  cases hcut : Text.cut "." t with
  | none =>
    refine absurd (simple_of_cut hempty ?_ ?_ hjoints fun element cls h' => ?_) h
    · simpa [Text.hasChar] using hcolon
    · simpa [Text.hasChar] using hhash
    · cases hcut.symm.trans h'
  | some p =>
    obtain ⟨element, cls⟩ := p
    by_cases hrest : (cls == "" || Text.hasChar '.' cls) = true
    · simp only [hrest, if_true, Bool.false_eq_true, if_false]
    · refine absurd (simple_of_cut hempty ?_ ?_ hjoints fun element' cls' h' => ?_) h
      · simpa [Text.hasChar] using hcolon
      · simpa [Text.hasChar] using hhash
      · cases hcut.symm.trans h'
        simpa [Text.hasChar] using hrest

end Simple

/-! ## Several parts -/

section Parts

variable {text name raw part : String} {classes : List String}

/-- The selector can stand for an element around. -/
def readable (s : Selector) : Bool := s.isSimple || s.isDescendant

/-- Parts hold neither blanks nor joints. -/
structure IsPart (part : String) : Prop where
  trim_eq : Text.trim part = part
  joints : ∀ c ∈ part.toList, c ∉ joints

theorem parseSimple_part (h : IsPart part) :
    (∃ element cls, Spells part element cls ∧ (parseSimple part).1 = { raw := part, element := element, cls := cls }) ∨
      ¬ Simple part ∧ (parseSimple part).1 = { raw := part } := by
  by_cases hs : Simple part
  · obtain ⟨element, cls, hspells⟩ := hs
    have hread := parseSimple_of_spells (h.trim_eq.symm ▸ hspells)
    rw [h.trim_eq] at hread
    exact .inl ⟨element, cls, hspells, hread⟩
  · have hread := parseSimple_of_not_simple (h.trim_eq.symm ▸ hs) (h.trim_eq.symm ▸ h.joints)
    rw [h.trim_eq] at hread
    exact .inr ⟨hs, hread⟩

theorem Spells.isSimple {element cls : String} (h : Spells part element cls) :
    ({ raw := raw, element := element, cls := cls } : Selector).isSimple = true := by
  simpa [Selector.isSimple] using h.present

/-- A selector of several parts, of which `subject` is the last and `around` what stands in front. -/
def within (raw : String) (subject around : Selector) : Selector :=
  if subject.isSimple then
    { raw := raw, element := subject.element, cls := subject.cls,
      ancestor := if readable around then some around else none }
  else { raw := raw }

theorem parseParts_pair (raw last prev : String) :
    (parseParts raw [last, prev]).1 = within raw (parseSimple last).1 (parseSimple prev).1 := by
  unfold parseParts within
  cases h : (parseSimple last).1.isSimple <;> simp [h, readable]

theorem parseParts_further (raw last prev next : String) (outer : List String) :
    (parseParts raw (last :: prev :: next :: outer)).1 = within raw (parseSimple last).1
      (parseParts (" ".intercalate (prev :: next :: outer).reverse) (prev :: next :: outer)).1 := by
  conv_lhs => unfold parseParts
  unfold within
  cases h : (parseSimple last).1.isSimple <;> simp [h, readable]

/-- What stands in front of the last part can stand for an element around if its own last part is a simple selector,
whatever stands further in front. -/
theorem exists_around (raw last : String) {prev : String} : ∀ {outer : List String}, (∀ p ∈ prev :: outer, IsPart p) →
    ∃ around, (readable around = true ↔ Simple prev) ∧
      (parseParts raw (last :: prev :: outer)).1 = within raw (parseSimple last).1 around
  | [], h => by
    refine ⟨_, ?_, parseParts_pair raw last prev⟩
    rcases parseSimple_part (h prev List.mem_cons_self) with ⟨element, cls, hspells, hread⟩ | ⟨hnot, hread⟩
    · rw [hread]
      exact iff_of_true (by rw [readable, hspells.isSimple, Bool.true_or]) ⟨_, _, hspells⟩
    · rw [hread]
      exact iff_of_false (by simp [readable, isSimple, isDescendant]) hnot
  | next :: outer, h => by
    refine ⟨_, ?_, parseParts_further raw last prev next outer⟩
    obtain ⟨around, -, heq⟩ := exists_around (" ".intercalate (prev :: next :: outer).reverse) prev
      (List.forall_mem_cons.1 h).2
    rw [heq, within]
    rcases parseSimple_part (h prev List.mem_cons_self) with ⟨element, cls, hspells, hread⟩ | ⟨hnot, hread⟩
    · rw [hread, if_pos hspells.isSimple]
      refine iff_of_true ?_ ⟨_, _, hspells⟩
      -- With an ancestor it is a descendant, without one a simple selector.
      split
      · simp [readable, isDescendant]
      · rw [readable, hspells.isSimple, Bool.true_or]
    · rw [hread, if_neg (by simp [isSimple])]
      exact iff_of_false (by simp [readable, isSimple, isDescendant]) hnot

theorem applies_simple {element cls : String} (h : Spells part element cls) :
    ({ raw := raw, element := element, cls := cls } : Selector).applies name classes = true ↔
      Satisfied element cls name classes := by
  unfold applies Satisfied
  rw [h.isSimple]
  simp [or_assoc]

/-- The last part alone decides what matches, unless the one in front of it is a simple selector. -/
theorem applies_parseParts {last prev : String} {outer : List String} (h : ∀ p ∈ last :: prev :: outer, IsPart p) :
    (parseParts raw (last :: prev :: outer)).1.applies name classes = true ↔
      (∃ element cls, Spells last element cls ∧ Satisfied element cls name classes) ∧ ¬ Simple prev := by
  obtain ⟨hlast, houter⟩ := List.forall_mem_cons.1 h
  obtain ⟨around, haround, heq⟩ := exists_around raw last houter
  rw [heq, within]
  rcases parseSimple_part hlast with ⟨element, cls, hspells, hread⟩ | ⟨hnot, hread⟩
  · rw [hread, if_pos hspells.isSimple]
    by_cases hprev : Simple prev
    · rw [if_pos (haround.2 hprev)]
      exact iff_of_false (by simp [applies, isSimple]) fun h => h.2 hprev
    · rw [if_neg fun h => hprev (haround.1 h), applies_simple hspells, hspells.exists_iff]
      exact (and_iff_left hprev).symm
  · rw [hread, if_neg (by simp [isSimple])]
    refine iff_of_false (by simp [applies, isSimple]) fun h => hnot ?_
    obtain ⟨⟨element, cls, hspells, -⟩, -⟩ := h
    exact ⟨_, _, hspells⟩

end Parts

/-! ## Whole selectors -/

section Whole

variable {text raw name : String} {classes : List String}

/-- Combinators and the start of an attribute. -/
def combining : List Char := ['+', '~', '>', '[']

/-- The text has several parts, of which the last is this simple selector and the one in front of it is none. -/
structure Detached (text element cls : String) : Prop where
  plain : ∀ c ∈ text.toList, c ∉ combining
  parted : ∃ c ∈ text.toList, c ∈ [' ', '\t', '\n']
  parts : ∃ outer prev last, Text.words text = outer ++ [prev, last] ∧ ¬ Simple prev ∧ Spells last element cls

theorem mem_joints {c : Char} : c ∈ joints ↔ c ∈ combining ∨ c ∈ [' ', '\t', '\n'] := by
  simp [joints, combining, or_assoc]

theorem isPart_of_mem_words (h : ∀ c ∈ text.toList, c ∉ combining) {w : String} (hw : w ∈ Text.words text) :
    IsPart w := by
  have hmem : ∀ c ∈ w.toList, c ∈ text.toList := fun c hc => Text.mem_of_mem_words hw hc
  obtain ⟨cs, hcs, rfl⟩ := List.mem_map.1 hw
  have hblank := (Text.isWord_of_mem hcs).2
  simp only [String.toList_ofList] at hmem
  refine ⟨Text.Tight.trim_eq ?_, fun c hc => ?_⟩
  · rw [String.toList_ofList]
    exact ⟨fun c hc => hblank c (List.mem_of_mem_head? hc), fun c hc => hblank c (List.mem_of_mem_getLast? hc)⟩
  · rw [String.toList_ofList] at hc
    rw [mem_joints]
    rintro (hj | hj)
    · exact h c (hmem c hc) hj
    · have hb := hblank c hc
      simp only [List.mem_cons, List.not_mem_nil, or_false] at hj
      rcases hj with rfl | rfl | rfl <;> cases hb

theorem hasAny_eq_true {chars s : String} : Text.hasAny chars s = true ↔ ∃ c ∈ s.toList, c ∈ chars.toList := by
  simp [Text.hasAny]

theorem combining_of_hasAny (h : Text.hasAny "+~>" text = true) : ∃ c ∈ text.toList, c ∈ combining := by
  obtain ⟨c, hc, hm⟩ := hasAny_eq_true.1 h
  have hchars : "+~>".toList = ['+', '~', '>'] := rfl
  rw [hchars] at hm
  exact ⟨c, hc, List.mem_append_left ['['] hm⟩

theorem combining_of_hasChar (h : Text.hasChar '[' text = true) : ∃ c ∈ text.toList, c ∈ combining :=
  ⟨'[', by simpa [Text.hasChar] using h, by decide⟩

theorem not_combining (h : ¬ Text.hasAny "+~>" text = true) (h' : ¬ Text.hasChar '[' text = true) :
    ∀ c ∈ text.toList, c ∉ combining := by
  intro c hc hm
  simp only [combining, List.mem_cons, List.not_mem_nil, or_false] at hm
  rcases hm with rfl | rfl | rfl | rfl
  all_goals first
    | exact h (hasAny_eq_true.2 ⟨_, hc, by decide⟩)
    | exact h' (by simpa [Text.hasChar] using hc)

/-- With a combinator or an attribute, no part is read. -/
theorem not_spells_of_combining (h : ∃ c ∈ text.toList, c ∈ combining) {element cls : String} :
    ¬ (Spells text element cls ∨ Detached text element cls) := by
  obtain ⟨c, hc, hm⟩ := h
  rintro (hs | hd)
  · exact hs.not_joint (mem_joints.2 (.inl hm)) hc
  · exact hd.plain c hc hm

theorem applies_parseSimple (h : IsPart text) : (parseSimple text).1.applies name classes = true ↔
    ∃ element cls, Spells text element cls ∧ Satisfied element cls name classes := by
  rcases parseSimple_part h with ⟨element, cls, hspells, hread⟩ | ⟨hnot, hread⟩
  · rw [hread, applies_simple hspells, hspells.exists_iff]
  · rw [hread]
    refine iff_of_false (by simp [applies, isSimple]) fun h => hnot ?_
    obtain ⟨element, cls, hspells, -⟩ := h
    exact ⟨_, _, hspells⟩

theorem applies_parseParts_words (h : ∀ c ∈ text.toList, c ∉ combining) :
    (parseParts raw (Text.words text).reverse).1.applies name classes = true ↔
      ∃ outer prev last element cls, Text.words text = outer ++ [prev, last] ∧ ¬ Simple prev ∧
        Spells last element cls ∧ Satisfied element cls name classes := by
  have hparts : ∀ p ∈ (Text.words text).reverse, IsPart p := fun p hp => isPart_of_mem_words h (List.mem_reverse.1 hp)
  have hreverse : ∀ {outer prev last}, Text.words text = outer ++ [prev, last] ↔
      (Text.words text).reverse = last :: prev :: outer.reverse := fun {outer prev last} => by
    rw [← List.reverse_inj, List.reverse_append]
    rfl
  simp only [hreverse]
  generalize (Text.words text).reverse = parts at hparts
  match parts with
  | [] | [_] =>
    have never : ¬ ({ raw := raw } : Selector).applies name classes = true := by simp [applies, isSimple]
    exact iff_of_false never (by simp)
  | last :: prev :: outer =>
    refine (applies_parseParts hparts).trans ⟨?_, ?_⟩
    · rintro ⟨⟨element, cls, hspells, hs⟩, hprev⟩
      exact ⟨outer.reverse, prev, last, element, cls, by rw [List.reverse_reverse], hprev, hspells, hs⟩
    · rintro ⟨outer', prev', last', element, cls, heq, hprev, hspells, hs⟩
      cases heq
      exact ⟨⟨element, cls, hspells, hs⟩, hprev⟩

/-- A selector applies to the elements that satisfy it as a simple selector. There is one exception: of a selector of
several parts it is the last part, if the part in front of it is no simple selector. -/
theorem applies_parse_iff (text name : String) (classes : List String) :
    (parse text).1.applies name classes = true ↔
      ∃ element cls, (Spells (Text.trim text) element cls ∨ Detached (Text.trim text) element cls) ∧
        Satisfied element cls name classes := by
  have htrim := Text.trim_trim text
  unfold parse
  generalize Text.trim text = t at htrim ⊢
  have never : ¬ ({ raw := t } : Selector).applies name classes = true := by simp [applies, isSimple]
  by_cases hany : Text.hasAny "+~>" t = true
  · simp only [hany, if_true]
    exact iff_of_false never fun ⟨_, _, h, _⟩ => not_spells_of_combining (combining_of_hasAny hany) h
  by_cases hattr : Text.hasChar '[' t = true
  · simp only [hany, hattr, if_true, Bool.false_eq_true, if_false]
    exact iff_of_false never fun ⟨_, _, h, _⟩ => not_spells_of_combining (combining_of_hasChar hattr) h
  have hplain := not_combining hany hattr
  simp only [hany, hattr, Bool.false_eq_true, if_false]
  by_cases hparted : Text.hasAny " \t\n" t = true
  · simp only [hparted, if_true]
    have hblank := hasAny_eq_true.1 hparted
    rw [applies_parseParts_words hplain]
    have hnot : ∀ {e c : String}, ¬ Spells t e c := fun hs => by
      obtain ⟨c, hc, hm⟩ := hblank
      exact hs.not_joint (mem_joints.2 (.inr hm)) hc
    simp only [hnot, false_or]
    constructor
    · rintro ⟨outer, prev, last, element, cls, hwords, hprev, hspells, hs⟩
      exact ⟨element, cls, ⟨hplain, hblank, outer, prev, last, hwords, hprev, hspells⟩, hs⟩
    · rintro ⟨element, cls, ⟨-, -, outer, prev, last, hwords, hprev, hspells⟩, hs⟩
      exact ⟨outer, prev, last, element, cls, hwords, hprev, hspells, hs⟩
  · simp only [hparted, Bool.false_eq_true, if_false]
    have hpart : IsPart t := ⟨htrim, fun c hc hj => (mem_joints.1 hj).elim (hplain c hc) fun hb =>
      hparted (hasAny_eq_true.2 ⟨c, hc, hb⟩)⟩
    rw [applies_parseSimple hpart]
    have hnot : ∀ {e c : String}, ¬ Detached t e c := fun hd => hparted (hasAny_eq_true.2 hd.parted)
    simp only [hnot, or_false]

/-- The identifier in front is no simple selector, and what is left applies to every `rect`. -/
theorem applies_behind_id :
    (parse "#main rect").1.applies "rect" [] = true ∧ ¬ Simple (Text.trim "#main rect") := by
  refine ⟨by decide +kernel, fun ⟨_, _, h⟩ => ?_⟩
  exact h.not_mem (c := '#') (by decide) (by decide) (by decide +kernel)

end Whole

end DiagramMarkup.Css.Selector
