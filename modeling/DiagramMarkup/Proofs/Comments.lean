import Mathlib.Data.List.Chain
import Mathlib.Logic.Function.Iterate
import Mathlib.Tactic.IntervalCases
import DiagramMarkup.Compile.Draw
import DiagramMarkup.Proofs.Texts
import DiagramMarkup.Xml.Reader
import DiagramMarkup.Xml.Writer

/-!
# Comments that name elements

A comment may not hold two hyphens in a row. So a text for a comment is spaced in rounds, and a round misses the pairs
that overlap those it finds.

1. With a blank between any two hyphens that stand side by side, a text is the same before and behind a round
   (`Text.apart_spaceOut`). It is what the rounds end with (`toList_commentSafe`), and it holds no pair
   (`Text.not_infix_apart`).
2. A round leaves no three hyphens in a row (`Text.not_triple_spaceOut`), and then another one finds all pairs there are
   (`Text.spaceOut_eq_apart`). So there are at most two rounds (`exists_rounds`).
3. The blanks stand between pieces of the text that meet at hyphens (`Text.exists_pieces`).
4. A comment without two hyphens in a row is read back from where it is written (`Xml.readToken_comment`). Quoted values
   hold characters of documents only (`Xml.isChar_of_mem_quote`), so what no document may hold gets into the description
   of an element by its names (`Element.mem_describe`).
-/

namespace DiagramMarkup

namespace Text

/-! ## Two hyphens in a row -/

theorem infix_hyphens_cons {c : Char} {cs : List Char} :
    ['-', '-'] <:+: c :: cs ↔ doubles c cs = true ∨ ['-', '-'] <:+: cs := by
  rw [List.infix_cons_iff, doubles_iff]

theorem not_infix_hyphens_surrounded {cs : List Char} (h : ¬ ['-', '-'] <:+: cs) :
    ¬ ['-', '-'] <:+: ' ' :: cs ++ [' ', '-'] := by
  suffices ¬ ['-', '-'] <:+: cs ++ [' ', '-'] by
    rw [List.cons_append, infix_hyphens_cons]
    simpa [doubles] using this
  induction cs with
  | nil => decide
  | cons c cs ih =>
    rw [infix_hyphens_cons, not_or] at h
    rw [List.cons_append, infix_hyphens_cons, not_or]
    refine ⟨fun hd => h.1 ?_, ih h.2⟩
    cases cs with
    | nil => simp [doubles] at hd
    | cons d cs => exact hd

/-- A blank between any two hyphens that stand side by side. -/
def apart : List Char → List Char
  | [] => []
  | c :: cs => if doubles c cs then c :: ' ' :: apart cs else c :: apart cs

theorem doubles_apart (c : Char) (cs : List Char) : doubles c (apart cs) = doubles c cs := by
  have head : (apart cs).head? = cs.head? := by
    fun_cases apart cs <;> rfl
  rw [doubles, head]
  rfl

theorem not_infix_apart (cs : List Char) : ¬ ['-', '-'] <:+: apart cs := by
  induction cs with
  | nil => decide
  | cons c cs ih =>
    rw [apart]
    split
    · rw [infix_hyphens_cons, infix_hyphens_cons]
      simp [doubles, ih]
    · next h =>
      rw [infix_hyphens_cons, doubles_apart]
      simp [h, ih]

theorem apart_eq_self {cs : List Char} (h : ¬ ['-', '-'] <:+: cs) : apart cs = cs := by
  induction cs with
  | nil => rfl
  | cons c cs ih =>
    rw [infix_hyphens_cons, not_or] at h
    rw [apart, if_neg h.1, ih h.2]

theorem mem_apart {c : Char} {cs : List Char} (h : c ∈ apart cs) : c = ' ' ∨ c ∈ cs := by
  fun_induction apart cs with
  | case1 => cases h
  | case2 d cs hd ih =>
    simp only [List.mem_cons] at h ⊢
    tauto
  | case3 d cs hd ih =>
    simp only [List.mem_cons] at h ⊢
    tauto

/-! ## Rounds -/

/-- A round does not change what the text becomes in the end. -/
theorem apart_spaceOut (cs : List Char) : apart (spaceOut cs) = apart cs := by
  have cons (c : Char) {cs : List Char} (h : apart (spaceOut cs) = apart cs) :
      apart (c :: spaceOut cs) = apart (c :: cs) := by
    rw [apart, apart, doubles_spaceOut, h]
  fun_induction spaceOut cs with
  | case1 cs ih =>
    show '-' :: ' ' :: apart ('-' :: spaceOut cs) = '-' :: ' ' :: apart ('-' :: cs)
    rw [cons '-' ih]
  | case2 c cs hc ih => exact cons c ih
  | case3 => rfl

theorem not_prefix_spaceOut (cs : List Char) : ¬ ['-', '-'] <+: spaceOut cs := by
  fun_cases spaceOut cs with
  | case1 cs => simp
  | case2 c cs hc =>
    rw [← doubles_iff, doubles_spaceOut, doubles_eq_false hc]
    exact Bool.false_ne_true
  | case3 => simp

/-- A round leaves no three hyphens in a row. -/
theorem not_triple_spaceOut (cs : List Char) : ¬ ['-', '-', '-'] <:+: spaceOut cs := by
  fun_induction spaceOut cs with
  | case1 cs ih => simp [List.infix_cons_iff, List.cons_prefix_cons, not_prefix_spaceOut, ih]
  | case2 c cs hc ih => simp [List.infix_cons_iff, List.cons_prefix_cons, not_prefix_spaceOut, ih]
  | case3 => simp

/-- It can leave two, where a pair overlaps the one that is found. -/
example : spaceOut "a---b".toList = "a- --b".toList := by decide

/-- Where no three hyphens stand in a row, a round finds all pairs. -/
theorem spaceOut_eq_apart {cs : List Char} (h : ¬ ['-', '-', '-'] <:+: cs) : spaceOut cs = apart cs := by
  fun_induction spaceOut cs with
  | case1 cs ih =>
    simp only [List.infix_cons_iff, not_or] at h
    have single : ¬ doubles '-' cs = true := fun hd => h.1 (by simpa [List.cons_prefix_cons] using doubles_iff.1 hd)
    show '-' :: ' ' :: '-' :: spaceOut cs = '-' :: ' ' :: apart ('-' :: cs)
    rw [ih h.2.2, apart, if_neg single]
  | case2 c cs hc ih =>
    simp only [List.infix_cons_iff, not_or] at h
    rw [ih h.2, apart, doubles_eq_false hc]
    rfl
  | case3 => rfl

/-! ## Pieces -/

/-- The text falls into pieces that meet at hyphens, and the blanks stand between these. -/
theorem exists_pieces (cs : List Char) :
    ∃ ps : List (List Char), ps.flatten = cs ∧ [' '].intercalate ps = apart cs ∧ [] ∉ ps ∧
      ps.IsChain fun u v => u.getLast? = some '-' ∧ v.head? = some '-' := by
  induction cs with
  | nil => exact ⟨[], rfl, rfl, List.not_mem_nil, .nil⟩
  | cons c cs ih =>
    obtain ⟨ps, rfl, hps, hne, hchain⟩ := ih
    rw [apart, ← hps]
    cases ps with
    | nil => exact ⟨[[c]], rfl, by simp [doubles], by simp, .singleton _⟩
    | cons p ps =>
      obtain ⟨d, p, rfl⟩ := List.exists_cons_of_ne_nil (l := p) fun h => hne (by simp [h])
      by_cases hd : doubles c ((d :: p) :: ps).flatten = true
      · -- A new piece ends in front of the second hyphen.
        have meet : c = '-' ∧ d = '-' := by simpa [doubles] using hd
        refine ⟨[c] :: (d :: p) :: ps, rfl, ?_, by simpa using hne, hchain.cons_cons (by simp [meet])⟩
        rw [if_pos hd, List.intercalate_cons_cons]
        rfl
      · refine ⟨(c :: d :: p) :: ps, rfl, ?_, by simpa using hne, ?_⟩
        · rw [if_neg hd, List.intercalate_cons_cons_left]
        · cases ps with
          | nil => exact .singleton _
          | cons q ps =>
            rw [List.isChain_cons_cons] at hchain ⊢
            simpa using hchain

end Text

/-! ## The loop -/

theorem toList_commentSafe (s : String) : (commentSafe s).toList = Text.apart s.toList := by
  fun_induction commentSafe s with
  | case1 s h ih => rw [ih, Text.toList_replace_hyphens, Text.apart_spaceOut]
  | case2 s h => exact (Text.apart_eq_self (Text.not_infix_of_occurs (by simp) (by simpa [Text.contains] using h))).symm

theorem contains_commentSafe (s : String) : Text.contains "--" (commentSafe s) = false := by
  fun_induction commentSafe s with
  | case1 s h ih => exact ih
  | case2 s h => simpa using h

/-- There are at most two rounds: as many as begin with a pair. -/
theorem exists_rounds (s : String) :
    ∃ n ≤ 2, (Text.replace "--" "- -")^[n] s = commentSafe s ∧
      ∀ k ≤ n, Text.contains "--" ((Text.replace "--" "- -")^[k] s) = true ↔ k < n := by
  have stops {n : Nat} (h : (Text.replace "--" "- -")^[n] s = commentSafe s) :
      Text.contains "--" ((Text.replace "--" "- -")^[n] s) = false := h ▸ contains_commentSafe s
  by_cases hs : Text.contains "--" s = true
  · by_cases hround : Text.contains "--" (Text.replace "--" "- -" s) = true
    · have hsecond : (Text.replace "--" "- -")^[2] s = commentSafe s := by
        show Text.replace "--" "- -" (Text.replace "--" "- -" s) = commentSafe s
        rw [← String.toList_inj, toList_commentSafe, Text.toList_replace_hyphens, Text.toList_replace_hyphens,
          Text.spaceOut_eq_apart (Text.not_triple_spaceOut _), Text.apart_spaceOut]
      refine ⟨2, le_rfl, hsecond, fun k hk => ?_⟩
      interval_cases k
      · simpa using hs
      · simpa using hround
      · simpa using stops hsecond
    · have hfirst : (Text.replace "--" "- -")^[1] s = commentSafe s := by
        rw [commentSafe, if_pos hs, commentSafe, if_neg hround]
        rfl
      refine ⟨1, by decide, hfirst, fun k hk => ?_⟩
      interval_cases k
      · simpa using hs
      · simpa using stops hfirst
  · refine ⟨0, by decide, ?_, fun k hk => ?_⟩
    · rw [commentSafe, if_neg hs]
      rfl
    · obtain rfl := Nat.le_zero.1 hk
      simpa using hs

/-! ## Reading back -/

/-- A comment without two hyphens in a row is read back as it was written. -/
theorem Xml.readToken_comment {text : String} (h : ¬ ['-', '-'] <:+: text.toList ++ ['-']) (cur : Xml.Cursor)
    (rest : List Char) :
    readToken { cur with rest := (writeLeaf (.comment text)).toList ++ rest } =
      some ([.leaf (.comment text)], { cur with rest := rest }) := by
  have found : Text.breakOn "--".toList (text.toList ++ "--".toList ++ '>' :: rest) = some (text.toList, '>' :: rest) :=
    Text.breakOn_first (by simp) h _
  have comment : readComment (text.toList ++ "--".toList ++ '>' :: rest) = some (.leaf (.comment text), rest) := by
    simp only [readComment, found, Option.bind_eq_bind, Option.bind_some, String.ofList_toList]
    rfl
  have written : (writeLeaf (.comment text)).toList ++ rest =
      '<' :: '!' :: '-' :: '-' :: (text.toList ++ "--".toList ++ '>' :: rest) := by
    simp [writeLeaf]
  rw [written]
  simp only [readToken, comment]
  rfl

/-! ## Characters -/

namespace Xml

theorem isChar_of_isPrintable {c : Char} (h : Text.isPrintable c = true) : isChar c = true := by
  have ranges : ∀ r ∈ Text.Printable.ranges,
      0x20 ≤ r.1 ∧ (r.2 ≤ 0xD7FF ∨ 0xE000 ≤ r.1 ∧ r.2 ≤ 0xFFFD ∨ 0x10000 ≤ r.1) := by
    decide +kernel
  unfold Text.isPrintable at h
  unfold isChar
  simp only at h ⊢
  split at h
  · simp only [Bool.and_eq_true, decide_eq_true_eq] at h
    simp only [Bool.or_eq_true, Bool.and_eq_true, beq_iff_eq, decide_eq_true_eq]
    omega
  · obtain ⟨r, hr, hc⟩ := List.any_eq_true.1 h
    have := ranges r hr
    simp only [Bool.and_eq_true, decide_eq_true_eq] at hc
    simp only [Bool.or_eq_true, Bool.and_eq_true, beq_iff_eq, decide_eq_true_eq]
    omega

theorem isChar_of_mem_toDigits {n : Nat} {c : Char} (h : c ∈ Nat.toDigits 16 n) : isChar c = true := by
  have digit : ∀ d < 16, isChar (Nat.digitChar d) = true := by decide
  induction n using Nat.strongRecOn with
  | _ n ih =>
    rw [Nat.toDigits_eq_if (by decide)] at h
    split at h
    · next hn =>
      rw [List.mem_singleton.1 h]
      exact digit n hn
    · next hn =>
      rcases List.mem_append.1 h with h | h
      · exact ih (n / 16) (by omega) h
      · rw [List.mem_singleton.1 h]
        exact digit _ (Nat.mod_lt _ (by decide))

theorem isChar_of_mem_hexDigits {w n : Nat} {c : Char} (h : c ∈ Text.hexDigits w n) : isChar c = true := by
  rcases List.mem_append.1 h with h | h
  · rw [List.eq_of_mem_replicate h]
    decide
  · exact isChar_of_mem_toDigits h

theorem isChar_of_mem_quoteChar {q : Char} (hq : isChar q = true) (c : Char) :
    ∀ d ∈ Text.quoteChar q c, isChar d = true := by
  have backslash : isChar '\\' = true := by decide
  have letter (k : Char) (hk : isChar k = true) : ∀ d ∈ ['\\', k], isChar d = true := by
    simpa using ⟨backslash, hk⟩
  have hex (k : Char) (w n : Nat) (hk : isChar k = true) :
      ∀ d ∈ ['\\', k] ++ Text.hexDigits w n, isChar d = true := by
    intro d hd
    rcases List.mem_append.1 hd with hd | hd
    · exact letter k hk d hd
    · exact isChar_of_mem_hexDigits hd
  unfold Text.quoteChar
  split
  · next h =>
    have hc : isChar c = true := by
      rcases (by simpa using h : c = q ∨ c = '\\') with rfl | rfl
      · exact hq
      · exact backslash
    simp [hc, backslash]
  split
  · next h => simpa using isChar_of_isPrintable h
  split
  any_goals exact letter _ (by decide)
  split
  · exact hex 'x' 2 _ (by decide)
  split
  · exact hex 'u' 4 _ (by decide)
  · exact hex 'U' 8 _ (by decide)

/-- Quoted text holds characters of documents only. -/
theorem isChar_of_mem_quote {s : String} {c : Char} (h : c ∈ (Text.quote s).toList) : isChar c = true := by
  simp only [Text.quote, String.toList_ofList, List.mem_append, List.mem_singleton, List.mem_flatMap] at h
  rcases h with (rfl | ⟨d, -, h⟩) | rfl
  · decide
  · exact isChar_of_mem_quoteChar (by decide) d c h
  · decide

end Xml

theorem Element.mem_outputAttrs {el : Element} {p : String × String} (h : p ∈ el.outputAttrs) :
    p ∈ el.attrs.entries ∨ p.1 = "class" := by
  unfold outputAttrs at h
  grind

/-- What no document may hold gets into a description by the names. -/
theorem Element.mem_describe {el : Element} {c : Char} (h : c ∈ el.describe.toList) :
    Xml.isChar c = true ∨ c ∈ el.name.toList ∨ ∃ p ∈ el.attrs.entries, c ∈ p.1.toList := by
  have legal (s : String) (hs : s.toList.all Xml.isChar = true) (hc : c ∈ s.toList) : Xml.isChar c = true :=
    List.all_eq_true.1 hs c hc
  simp only [describe, String.toList_append, List.mem_append] at h
  rcases h with ((h | h) | h) | h
  · exact .inl (legal "<" (by decide) h)
  · exact .inr (.inl h)
  · obtain ⟨p, hp, h⟩ : ∃ p ∈ el.outputAttrs, c ∈ (" " ++ p.1 ++ "=" ++ Text.quote p.2).toList := by
      simpa using h
    simp only [String.toList_append, List.mem_append] at h
    rcases h with ((h | h) | h) | h
    · exact .inl (legal " " (by decide) h)
    · rcases mem_outputAttrs hp with hp | hp
      · exact .inr (.inr ⟨p, hp, h⟩)
      · exact .inl (legal "class" (by decide) (hp ▸ h))
    · exact .inl (legal "=" (by decide) h)
    · exact .inl (Xml.isChar_of_mem_quote h)
  · exact .inl (legal ">" (by decide) h)

/-! ## Comments of elements -/

/-- A text for a comment is ready after two rounds at the latest. It holds no two hyphens in a row, and without the
blanks between pieces that meet at hyphens it is the text that was given. So the comment of an element can be written and
is read back, with characters that no document may hold only where names have them. -/
theorem debugComment_legal :
    (∀ s : String,
        (∃ n ≤ 2, (Text.replace "--" "- -")^[n] s = commentSafe s ∧
          ∀ k ≤ n, Text.contains "--" ((Text.replace "--" "- -")^[k] s) = true ↔ k < n) ∧
        ¬ "--".toList <:+: (commentSafe s).toList ∧
        ∃ pieces : List String, String.join pieces = s ∧ " ".intercalate pieces = commentSafe s ∧
          pieces.IsChain fun u v => u.toList.getLast? = some '-' ∧ v.toList.head? = some '-') ∧
      ∀ el : Element, ∃ text, debugComment el = .leaf (.comment text) ∧ text = " " ++ commentSafe el.describe ++ " " ∧
        (∀ (cur : Xml.Cursor) (rest : List Char),
          Xml.readToken { cur with rest := (Xml.writeLeaf (.comment text)).toList ++ rest } =
            some ([.leaf (.comment text)], { cur with rest := rest })) ∧
        ∀ c ∈ text.toList, Xml.isChar c = true ∨ c ∈ el.name.toList ∨ ∃ p ∈ el.attrs.entries, c ∈ p.1.toList := by
  have single (s : String) : ¬ "--".toList <:+: (commentSafe s).toList :=
    toList_commentSafe s ▸ Text.not_infix_apart s.toList
  refine ⟨fun s => ⟨exists_rounds s, single s, ?_⟩, fun el => ⟨_, rfl, rfl, fun cur rest => ?_, fun c hc => ?_⟩⟩
  · obtain ⟨ps, hflat, hspaced, -, hchain⟩ := Text.exists_pieces s.toList
    have plain : String.toList ∘ String.ofList = id := funext fun _ => String.toList_ofList
    refine ⟨ps.map String.ofList, ?_, ?_, ?_⟩
    · rw [← String.toList_inj, ← hflat]
      simp [List.flatMap_def, plain]
    · rw [← String.toList_inj, String.toList_intercalate, List.map_map, plain, List.map_id, toList_commentSafe]
      exact hspaced
    · simpa [List.isChain_map] using hchain
  · refine Xml.readToken_comment ?_ cur rest
    simpa using Text.not_infix_hyphens_surrounded (single el.describe)
  · have mem : c = ' ' ∨ c ∈ el.describe.toList := by
      simp only [String.toList_append, toList_commentSafe, List.mem_append] at hc
      rcases hc with (hc | hc) | hc
      · exact .inl (by simpa using hc)
      · exact Text.mem_apart hc
      · exact .inl (by simpa using hc)
    rcases mem with rfl | hc
    · exact .inl (by decide)
    · exact Element.mem_describe hc

end DiagramMarkup
