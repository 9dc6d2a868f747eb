import DiagramMarkup.Text.Blank

/-!
# Splitting and searching

Cutting text at separator characters or at a separator word, and replacing a word everywhere. All
searches take the leftmost match and go on behind it, so matches never overlap.
-/

namespace DiagramMarkup.Text

/-- The pieces between separator characters, empty pieces included; never an empty list. -/
def splitWhere (sep : Char → Bool) : List Char → List (List Char)
  | [] => [[]]
  | c :: cs =>
    if sep c then [] :: splitWhere sep cs
    else
      match splitWhere sep cs with
      | [] => [[c]]
      | w :: ws => (c :: w) :: ws

/-- The non-empty pieces between separator characters. -/
def wordsWhere (sep : Char → Bool) (cs : List Char) : List (List Char) :=
  (splitWhere sep cs).filter (!·.isEmpty)

/-- The words of a text, split at white space. -/
def words (s : String) : List String := (wordsWhere isBlank s.toList).map String.ofList

/-- The pieces of a text between occurrences of one character. -/
def splitAt (sep : Char) (s : String) : List String :=
  (splitWhere (· == sep) s.toList).map String.ofList

/-- What stands before and behind the first occurrence of `sep`. -/
def breakOn (sep : List Char) : List Char → Option (List Char × List Char)
  | [] => if sep.isEmpty then some ([], []) else none
  | c :: cs =>
    if sep.isPrefixOf (c :: cs) then some ([], (c :: cs).drop sep.length)
    else (breakOn sep cs).map fun (before, after) => (c :: before, after)

/-- The part of a text before and behind the first occurrence of `sep`. -/
def cut (sep : String) (s : String) : Option (String × String) :=
  (breakOn sep.toList s.toList).map fun (a, b) => (String.ofList a, String.ofList b)

/-- Does `part` occur in `cs`? -/
def occurs (part cs : List Char) : Bool := (breakOn part cs).isSome

/-- Does `part` occur in the text? -/
def contains (part s : String) : Bool := occurs part.toList s.toList

/-- Does the character occur in the text? -/
def hasChar (c : Char) (s : String) : Bool := s.toList.contains c

/-- Does one of the characters occur in the text? -/
def hasAny (chars s : String) : Bool := s.toList.any chars.toList.contains

/-- Pieces between occurrences of `sep`; `fuel` bounds the number of cuts. -/
def splitOnFuel (sep : List Char) : Nat → List Char → List (List Char)
  | 0, cs => [cs]
  | fuel + 1, cs =>
    match breakOn sep cs with
    | none => [cs]
    | some (a, b) => a :: splitOnFuel sep fuel b

/-- The pieces of `cs` between occurrences of the non-empty word `sep`. -/
def splitOn (sep cs : List Char) : List (List Char) := splitOnFuel sep cs.length cs

/-- The pieces of a text between occurrences of the non-empty word `sep`. -/
def splitText (sep s : String) : List String :=
  (splitOn sep.toList s.toList).map String.ofList

/-- Every occurrence of `old` becomes `new`. -/
def replaceChars (old new cs : List Char) : List Char := new.intercalate (splitOn old cs)

/-- Every occurrence of `old` becomes `new`. -/
def replace (old new s : String) : String :=
  String.ofList (replaceChars old.toList new.toList s.toList)

/-- Does the text start with `part`? -/
def startsWith (part s : String) : Bool := part.toList.isPrefixOf s.toList

/-- Does the text end with `part`? -/
def endsWith (part s : String) : Bool := part.toList.isSuffixOf s.toList

/-- What follows `part` at the start of the text, if it starts so. -/
def after? (part s : String) : Option String :=
  if startsWith part s then some (String.ofList (s.toList.drop part.toList.length)) else none

/-- What precedes `part` at the end of the text, if it ends so. -/
def before? (part s : String) : Option String :=
  if endsWith part s then
    some (String.ofList (s.toList.take (s.toList.length - part.toList.length)))
  else none

/-- The text without `part` at its start. -/
def dropStart (part s : String) : String := (after? part s).getD s

/-- The text without `part` at its end. -/
def dropEnd (part s : String) : String := (before? part s).getD s

/-- The length in bytes of the text in UTF-8. -/
def byteLength (cs : List Char) : Nat := cs.foldr (fun c n => c.utf8Size + n) 0

theorem splitWhere_ne_nil (sep : Char → Bool) (cs : List Char) : splitWhere sep cs ≠ [] := by
  cases cs with
  | nil => simp [splitWhere]
  | cons c cs =>
    unfold splitWhere
    split
    · simp
    · split <;> simp

/-! ## Searching and replacing, piece by piece -/

theorem eq_of_breakOn {sep cs before after : List Char} (h : breakOn sep cs = some (before, after)) :
    cs = before ++ sep ++ after := by
  fun_induction breakOn sep cs generalizing before with
  | case1 hs =>
    cases h
    rw [List.isEmpty_iff.1 hs]
    rfl
  | case2 => cases h
  | case3 c cs hp =>
    obtain ⟨r, hr⟩ := List.isPrefixOf_iff_prefix.1 hp
    cases h
    rw [← hr, List.drop_left]
    rfl
  | case4 c cs hp ih =>
    obtain ⟨⟨u, v⟩, hu, he⟩ := Option.map_eq_some_iff.1 h
    cases he
    rw [ih hu]
    rfl

section Replacing

variable {old : List Char} (hold : old ≠ [])
include hold

/-- More fuel than there are characters makes no difference. -/
theorem splitOnFuel_eq {fuel : Nat} {cs : List Char} (h : cs.length ≤ fuel) :
    splitOnFuel old fuel cs = splitOn old cs := by
  suffices ∀ n fuel cs, cs.length ≤ n → cs.length ≤ fuel → splitOnFuel old fuel cs = splitOnFuel old n cs from
    this cs.length fuel cs (Nat.le_refl _) h
  clear h
  intro n
  induction n with
  | zero =>
    intro fuel cs hn _
    rw [List.length_eq_zero_iff.1 (Nat.le_zero.1 hn)]
    cases fuel with
    | zero => rfl
    | succ fuel => simp [splitOnFuel, breakOn, hold]
  | succ n ih =>
    intro fuel cs hn hfuel
    cases hb : breakOn old cs with
    | none => cases fuel <;> simp [splitOnFuel, hb]
    | some p =>
      obtain ⟨before, after⟩ := p
      have hlength := congrArg List.length (eq_of_breakOn hb)
      have := List.length_pos_iff.2 hold
      simp only [List.length_append] at hlength
      cases fuel with
      | zero => omega
      | succ fuel => simp [splitOnFuel, hb, ih fuel after (by omega) (by omega)]

/-- The pieces are cut off one by one. -/
theorem splitOn_eq (cs : List Char) :
    splitOn old cs = match breakOn old cs with
      | none => [cs]
      | some (before, after) => before :: splitOn old after := by
  rw [← splitOnFuel_eq hold (Nat.le_succ _), splitOnFuel]
  cases hb : breakOn old cs with
  | none => rfl
  | some p =>
    obtain ⟨before, after⟩ := p
    have hlength := congrArg List.length (eq_of_breakOn hb)
    simp only [List.length_append] at hlength
    show before :: splitOnFuel old cs.length after = before :: splitOn old after
    rw [splitOnFuel_eq hold (by omega)]

theorem splitOn_ne_nil (cs : List Char) : splitOn old cs ≠ [] := by
  rw [splitOn_eq hold]
  split <;> simp

/-- What is found at the start is replaced, and the search goes on behind it. -/
theorem replaceChars_append (new cs : List Char) :
    replaceChars old new (old ++ cs) = new ++ replaceChars old new cs := by
  obtain ⟨c, tail, rfl⟩ := List.exists_cons_of_ne_nil hold
  have found : breakOn (c :: tail) (c :: tail ++ cs) = some ([], cs) := by
    rw [List.cons_append, breakOn, ← List.cons_append, if_pos (by simp [List.isPrefixOf_iff_prefix])]
    simp
  rw [replaceChars, splitOn_eq hold, found]
  simp [List.intercalate_cons_of_ne_nil (splitOn_ne_nil hold cs), replaceChars]

/-- A character at which nothing is found stays. -/
theorem replaceChars_cons (new : List Char) {c : Char} {cs : List Char} (h : ¬ old <+: c :: cs) :
    replaceChars old new (c :: cs) = c :: replaceChars old new cs := by
  have further : breakOn old (c :: cs) = (breakOn old cs).map fun (before, after) => (c :: before, after) := by
    rw [breakOn, if_neg (by simpa [List.isPrefixOf_iff_prefix] using h)]
  rw [replaceChars, replaceChars, splitOn_eq hold, splitOn_eq hold cs, further]
  cases breakOn old cs with
  | none => simp
  | some p => simp [List.intercalate_cons_cons_left]

end Replacing

theorem replaceChars_nil (old new : List Char) : replaceChars old new [] = [] := by
  simp [replaceChars, splitOn, splitOnFuel]

end DiagramMarkup.Text
