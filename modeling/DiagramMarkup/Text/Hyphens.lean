import DiagramMarkup.Text.Split

/-!
# Hyphens side by side

Some texts may not hold two hyphens in a row. Replacing every pair by hyphens with a blank between them finds the pairs
from the left and without overlaps, so a run of hyphens takes more than one round; each round leaves fewer hyphens side
by side.
-/

namespace DiagramMarkup.Text

/-- Is this a hyphen in front of another? -/
def doubles (c : Char) (cs : List Char) : Bool := c == '-' && cs.head? == some '-'

/-- How often two hyphens stand side by side, pairs that overlap included. -/
def doubled : List Char → Nat
  | [] => 0
  | c :: cs => doubled cs + if doubles c cs then 1 else 0

/-- A blank in every pair of hyphens that is found from the left. -/
def spaceOut : List Char → List Char
  | '-' :: '-' :: cs => '-' :: ' ' :: '-' :: spaceOut cs
  | c :: cs => c :: spaceOut cs
  | [] => []

theorem doubles_iff {c : Char} {cs : List Char} : doubles c cs = true ↔ ['-', '-'] <+: c :: cs := by
  cases cs <;> simp [doubles, @eq_comm _ '-']

theorem doubles_eq_false {c : Char} {cs : List Char} (h : ∀ r, c = '-' → cs = '-' :: r → False) :
    doubles c cs = false := by
  rw [← Bool.not_eq_true, doubles_iff]
  rintro ⟨r, hr⟩
  cases hr
  exact h r rfl rfl

theorem replaceChars_hyphens (cs : List Char) : replaceChars ['-', '-'] ['-', ' ', '-'] cs = spaceOut cs := by
  fun_induction spaceOut cs with
  | case1 cs ih =>
    rw [← ih]
    exact replaceChars_append (by simp) _ cs
  | case2 c cs hc ih =>
    rw [← ih]
    refine replaceChars_cons (by simp) _ ?_
    rw [← doubles_iff, doubles_eq_false hc]
    exact Bool.false_ne_true
  | case3 => exact replaceChars_nil _ _

theorem toList_replace_hyphens (s : String) : (replace "--" "- -" s).toList = spaceOut s.toList := by
  rw [replace, String.toList_ofList]
  exact replaceChars_hyphens s.toList

/-! ## Rounds -/

theorem head?_spaceOut (cs : List Char) : (spaceOut cs).head? = cs.head? := by
  fun_cases spaceOut cs <;> rfl

theorem doubles_spaceOut (c : Char) (cs : List Char) : doubles c (spaceOut cs) = doubles c cs := by
  rw [doubles, head?_spaceOut]
  rfl

theorem doubled_pair (cs : List Char) : doubled ('-' :: '-' :: cs) = doubled ('-' :: cs) + 1 := rfl

theorem doubled_spaced (cs : List Char) : doubled ('-' :: ' ' :: '-' :: cs) = doubled ('-' :: cs) := rfl

theorem doubled_spaceOut_le (cs : List Char) : doubled (spaceOut cs) ≤ doubled cs := by
  fun_induction spaceOut cs with
  | case1 cs ih =>
    rw [doubled_pair, doubled_spaced]
    simp only [doubled, doubles_spaceOut]
    omega
  | case2 c cs hc ih =>
    simp only [doubled, doubles_spaceOut]
    omega
  | case3 => exact Nat.le_refl _

/-- A round that finds a pair leaves fewer hyphens side by side. -/
theorem doubled_spaceOut_lt {cs : List Char} (h : occurs ['-', '-'] cs) : doubled (spaceOut cs) < doubled cs := by
  fun_induction spaceOut cs with
  | case1 cs ih =>
    have := doubled_spaceOut_le cs
    rw [doubled_pair, doubled_spaced]
    simp only [doubled, doubles_spaceOut]
    omega
  | case2 c cs hc ih =>
    have here : ['-', '-'].isPrefixOf (c :: cs) = false := by
      rw [← Bool.not_eq_true, List.isPrefixOf_iff_prefix, ← doubles_iff, doubles_eq_false hc]
      exact Bool.false_ne_true
    have := ih (by simpa [occurs, breakOn, here] using h)
    simp only [doubled, doubles_spaceOut]
    omega
  | case3 => simp [occurs, breakOn] at h

theorem doubled_replace_lt {s : String} (h : contains "--" s) :
    doubled (replace "--" "- -" s).toList < doubled s.toList := by
  rw [toList_replace_hyphens]
  exact doubled_spaceOut_lt h

end DiagramMarkup.Text
