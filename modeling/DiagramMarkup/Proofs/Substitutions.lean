import DiagramMarkup.Expr.Template
import DiagramMarkup.Proofs.Texts
import Mathlib.Data.List.Basic

/-!
# Substitution of variables

A text falls into characters that are copied and references to variables, each a word behind a dollar sign or a name in
braces behind one (`Split`). One scanner replaces the references, another one lists their names.

1. Each text has a split (`exists_split`).
2. Both scanners follow the split, each in its own steps (`Split.substituteFuel_eq`, `Split.varRefsFuel_eq`), so the
   names that are listed are those of the references that are replaced (`exists_substitute_pieces`).

The scanners tell ASCII characters apart and copy all others, so bytes may stand for the characters just as well.
-/

namespace DiagramMarkup.Expr

/-! ## Pieces -/

/-- A part of a text: a character that is copied, a reference by a word, or one with the name in braces. -/
inductive Piece where
  | literal (c : Char)
  | word (name : List Char)
  | braced (name : List Char)
deriving Repr, DecidableEq

namespace Piece

/-- How the piece is written. -/
def source : Piece → List Char
  | literal c => [c]
  | word name => '$' :: name
  | braced name => '$' :: '{' :: name ++ ['}']

/-- The variable that the piece refers to. -/
def name? : Piece → Option String
  | literal _ => none
  | word name | braced name => some (String.ofList name)

/-- What the piece becomes: the raw text of its variable, or what is written if there is none. -/
def substitute (var? : String → Option String) (p : Piece) : List Char :=
  match p.name?.bind var? with
  | some v => v.toList
  | none => p.source

end Piece

/-- Behind a dollar sign the text goes on with a reference and then the rest: with the longest word there is, or with a
name up to the first closing brace. -/
inductive Refers : List Char → Piece → List Char → Prop where
  | word {c : Char} {name rest : List Char} (hc : isWordStart c) (hname : ∀ d ∈ name, isWordChar d)
    (hend : Text.Ends isWordChar rest) : Refers (c :: name ++ rest) (.word (c :: name)) rest
  | braced {name rest : List Char} (hname : name ≠ []) (hclose : '}' ∉ name) :
    Refers ('{' :: name ++ '}' :: rest) (.braced name) rest

/-- The pieces of a text. A dollar sign is copied only where no reference follows. -/
inductive Split : List Char → List Piece → Prop where
  | nil : Split [] []
  | literal {c : Char} {cs : List Char} {ps : List Piece} (hc : c = '$' → ∀ p rest, ¬ Refers cs p rest)
    (h : Split cs ps) : Split (c :: cs) (.literal c :: ps)
  | reference {cs rest : List Char} {p : Piece} {ps : List Piece} (hp : Refers cs p rest) (h : Split rest ps) :
    Split ('$' :: cs) (p :: ps)

section References

variable {cs rest : List Char} {p : Piece}

theorem Refers.source (h : Refers cs p rest) : '$' :: cs = p.source ++ rest := by
  cases h <;> simp [Piece.source]

theorem Refers.length_lt (h : Refers cs p rest) : rest.length < cs.length := by
  cases h <;> simp only [List.length_append, List.length_cons] <;> omega

/-- A reference is read as it stands. -/
theorem Refers.reference?_eq (h : Refers cs p rest) :
    ∃ name source, reference? cs = some (name, source, rest) ∧ p.name? = some (String.ofList name) ∧
      p.source = '$' :: source := by
  cases h with
  | @word c name _ hc hname hend =>
    have hword := forall_isWordChar hc hname
    have hbrace : c ≠ '{' := by
      rintro rfl
      exact absurd hc (by decide)
    refine ⟨c :: name, c :: name, ?_, rfl, rfl⟩
    rw [List.cons_append, reference?.eq_2 _ _ hbrace, if_pos hc, ← List.cons_append,
      hend.takeWhile hword, hend.dropWhile hword]
  | @braced name _ hname hclose =>
    obtain ⟨c, name, rfl⟩ := List.exists_cons_of_ne_nil hname
    refine ⟨c :: name, '{' :: (c :: name) ++ ['}'], ?_, rfl, rfl⟩
    rw [List.cons_append, reference?, Text.breakOn_singleton hclose]

/-- What is read behind a dollar sign is a reference. -/
theorem exists_refers {name source : List Char} (h : reference? cs = some (name, source, rest)) :
    ∃ p, Refers cs p rest := by
  unfold reference? at h
  split at h
  · next cs =>
    split at h
    · cases h
    · cases h
    · next name rest hname hbreak =>
      cases h
      refine ⟨.braced name, ?_⟩
      rw [Text.eq_of_breakOn hbreak, List.append_assoc, List.singleton_append]
      exact .braced (fun hnil => hname (hnil ▸ rfl)) (Text.not_mem_of_breakOn hbreak)
  · next c cs _ =>
    split at h
    · next hc =>
      cases h
      refine ⟨.word (c :: cs.takeWhile isWordChar), ?_⟩
      rw [List.dropWhile_cons_of_pos (isWordChar_of_start hc)]
      conv => arg 1; rw [← List.takeWhile_append_dropWhile (p := isWordChar) (l := cs)]
      exact .word hc (fun d hd => List.mem_takeWhile_imp hd) (Text.ends_dropWhile _ _)
    · cases h
  · cases h

end References

/-! ## The split of a text -/

/-- Each text has a split. -/
theorem exists_split (cs : List Char) : ∃ ps, Split cs ps := by
  induction hn : cs.length using Nat.strong_induction_on generalizing cs with
  | h n ih =>
    cases cs with
    | nil => exact ⟨[], .nil⟩
    | cons c cs =>
      by_cases hc : c = '$' ∧ ∃ p rest, Refers cs p rest
      · obtain ⟨rfl, p, rest, hp⟩ := hc
        obtain ⟨ps, hps⟩ := ih _ (hn ▸ Nat.lt_succ_of_lt hp.length_lt) rest rfl
        exact ⟨p :: ps, .reference hp hps⟩
      · obtain ⟨ps, hps⟩ := ih cs.length (by simp [← hn]) cs rfl
        exact ⟨.literal c :: ps, .literal (fun he p rest hp => hc ⟨he, p, rest, hp⟩) hps⟩

namespace Split

variable {cs : List Char} {ps : List Piece}

theorem source_eq (h : Split cs ps) : ps.flatMap Piece.source = cs := by
  induction h with
  | nil => rfl
  | literal _ _ ih => rw [List.flatMap_cons, ih, Piece.source, List.singleton_append]
  | reference hp _ ih => rw [List.flatMap_cons, ih, hp.source]

/-- A copied character is no reference to either scanner. -/
theorem reference?_eq_none {c : Char} (hc : c = '$' → ∀ p rest, ¬ Refers cs p rest) (hd : c = '$') :
    reference? cs = none := by
  cases h : reference? cs with
  | none => rfl
  | some r =>
    obtain ⟨p, hp⟩ := exists_refers h
    exact absurd hp (hc hd p _)

/-- The scanner that replaces references takes the pieces of the split one by one. -/
theorem substituteFuel_eq (h : Split cs ps) (var? : String → Option String) {fuel : Nat} (hf : cs.length ≤ fuel) :
    substituteFuel var? fuel cs = ps.flatMap (Piece.substitute var?) := by
  induction h generalizing fuel with
  | nil => cases fuel <;> rfl
  | @literal c cs ps hc _ ih =>
    obtain ⟨fuel, rfl⟩ : ∃ f, fuel = f + 1 := ⟨fuel - 1, by simp at hf; omega⟩
    have tail := ih (Nat.le_of_succ_le_succ hf)
    rw [substituteFuel, tail, List.flatMap_cons]
    split
    · next hd =>
      rw [reference?_eq_none hc (by simpa using hd)]
      rfl
    · rfl
  | @reference cs rest p ps hp _ ih =>
    obtain ⟨fuel, rfl⟩ : ∃ f, fuel = f + 1 := ⟨fuel - 1, by simp at hf; omega⟩
    obtain ⟨name, source, href, hname, hsource⟩ := hp.reference?_eq
    have tail := ih (hp.length_lt.le.trans (Nat.le_of_succ_le_succ hf))
    rw [substituteFuel, if_pos (beq_self_eq_true _), href, List.flatMap_cons, Piece.substitute, hname, hsource]
    simp only [tail, Option.bind_some]
    cases var? (String.ofList name) <;> rfl

/-- The scanner that lists names takes the pieces of the split one by one. -/
theorem varRefsFuel_eq (h : Split cs ps) {fuel : Nat} (hf : cs.length ≤ fuel) :
    varRefsFuel fuel cs = ps.filterMap Piece.name? := by
  induction h generalizing fuel with
  | nil => cases fuel <;> rfl
  | @literal c cs ps hc _ ih =>
    obtain ⟨fuel, rfl⟩ : ∃ f, fuel = f + 1 := ⟨fuel - 1, by simp at hf; omega⟩
    have tail := ih (Nat.le_of_succ_le_succ hf)
    rw [varRefsFuel, tail, List.filterMap_cons_none rfl]
    split
    · next hd => rw [reference?_eq_none hc (by simpa using hd)]
    · rfl
  | @reference cs rest p ps hp _ ih =>
    obtain ⟨fuel, rfl⟩ : ∃ f, fuel = f + 1 := ⟨fuel - 1, by simp at hf; omega⟩
    obtain ⟨name, source, href, hname, -⟩ := hp.reference?_eq
    have tail := ih (hp.length_lt.le.trans (Nat.le_of_succ_le_succ hf))
    rw [varRefsFuel, if_pos (beq_self_eq_true _), href, List.filterMap_cons_some hname]
    simp only [tail]

/-- Where no variable of a reference is known, all is copied. -/
theorem substitute_unknown (h : Split cs ps) {var? : String → Option String}
    (hvar : ∀ name ∈ ps.filterMap Piece.name?, var? name = none) : ps.flatMap (Piece.substitute var?) = cs := by
  have copied : ∀ p ∈ ps, p.substitute var? = p.source := by
    intro p hp
    cases hname : p.name? with
    | none => simp only [Piece.substitute, hname, Option.bind_none]
    | some name =>
      have unknown := hvar name (List.mem_filterMap.2 ⟨p, hp, hname⟩)
      simp only [Piece.substitute, hname, Option.bind_some, unknown]
  rw [List.flatMap_congr copied, h.source_eq]

/-- A text without a dollar sign has no references. -/
theorem names_eq_nil (h : Split cs ps) (hcs : '$' ∉ cs) : ps.filterMap Piece.name? = [] := by
  rw [List.filterMap_eq_nil_iff]
  intro p hp
  have hsource : '$' ∉ p.source := fun hd => hcs (h.source_eq ▸ List.mem_flatMap.2 ⟨p, hp, hd⟩)
  cases p with
  | literal c => rfl
  | word name | braced name => exact absurd List.mem_cons_self hsource

theorem substituteChars_eq (h : Split cs ps) (var? : String → Option String) :
    substituteChars var? cs = ps.flatMap (Piece.substitute var?) := by
  unfold substituteChars
  split
  · exact h.substituteFuel_eq var? le_rfl
  · next hd =>
    refine (h.substitute_unknown ?_).symm
    rw [h.names_eq_nil (by simpa using hd)]
    exact fun _ hname => nomatch hname

theorem toList_substitute {s : String} (h : Split s.toList ps) (var? : String → Option String) :
    (substitute var? s).toList = ps.flatMap (Piece.substitute var?) := by
  rw [Expr.substitute, String.toList_ofList, h.substituteChars_eq]

theorem varRefs_eq {s : String} (h : Split s.toList ps) : varRefs s = ps.filterMap Piece.name? :=
  h.varRefsFuel_eq le_rfl

end Split

/-- Each text falls into pieces, copied characters and references, such that the names listed for it are those of the
references in order, and substitution replaces each reference to a known variable by its raw text and copies the rest.
So a text that refers to no known variable stays as it is. -/
theorem exists_substitute_pieces (s : String) :
    ∃ ps, Split s.toList ps ∧ ps.flatMap Piece.source = s.toList ∧ varRefs s = ps.filterMap Piece.name? ∧
      (∀ var?, (substitute var? s).toList = ps.flatMap (Piece.substitute var?)) ∧
      ∀ var?, (∀ name ∈ varRefs s, var? name = none) → substitute var? s = s := by
  obtain ⟨ps, h⟩ := exists_split s.toList
  refine ⟨ps, h, h.source_eq, h.varRefs_eq, h.toList_substitute, fun var? hvar => ?_⟩
  rw [h.varRefs_eq] at hvar
  rw [← String.toList_inj, h.toList_substitute, h.substitute_unknown hvar]

/-- Malformed references are copied, and so is what a value says. -/
example : substitute (fun name => if name = "a" then some "$b" else none) "$$a $\x7ba\x7d $1 $\x7b\x7d $b $\x7ba" =
    "$$b $b $1 $\x7b\x7d $b $\x7ba" := by decide

end DiagramMarkup.Expr
