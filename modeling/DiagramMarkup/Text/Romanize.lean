import DiagramMarkup.Text.Lower
import DiagramMarkup.Text.RomanTable
import DiagramMarkup.Text.Split

/-!
# Plain spellings

`romanize` writes text in ASCII, and `slug` makes it into small letters, digits, hyphens and underscores, as they
stand in addresses.
-/

namespace DiagramMarkup.Text

namespace Roman

/-- The spellings of the first part of a Korean syllable. -/
def initials : List String :=
  ["g", "gg", "n", "d", "dd", "r", "m", "b", "bb", "s", "ss", "", "j", "jj", "c", "k", "t", "p", "h"]

/-- The spellings of its vowel. -/
def vowels : List String :=
  ["a", "ae", "ya", "yae", "eo", "e", "yeo", "ye", "o", "wa", "wae", "oe", "yo", "u", "weo", "we",
    "wi", "yu", "eu", "yi", "i"]

/-- The spellings of its last part. -/
def finals : List String :=
  ["", "g", "gg", "gs", "n", "nj", "nh", "d", "l", "lg", "lm", "lb", "ls", "lt", "lp", "lh", "m", "b",
    "bs", "s", "ss", "ng", "j", "c", "k", "t", "p", "h"]

/-- The spelling of a Korean syllable, given by its place among all syllables. -/
def syllable (n : Nat) : String :=
  (initials[n / 588]?).getD "" ++ (vowels[n % 588 / 28]?).getD "" ++ (finals[n % 28]?).getD ""

/-- The spelling of a character in the table. -/
def listed? (n : Nat) : Option String := do
  let (first, spellings) ← runs.find? fun r => r.1 ≤ n && n < r.1 + r.2.length
  spellings[n - first]?

end Roman

/-- One character in ASCII; what has no spelling is left out. -/
def romanizeChar (c : Char) : String :=
  let n := c.toNat
  if n < 0x80 then c.toString
  else if 0xAC00 ≤ n && n < 0xD7A4 then Roman.syllable (n - 0xAC00)
  else if 0xFF01 ≤ n && n ≤ 0xFF5E then (Char.ofNat (n - 0xFEE0)).toString
  else (Roman.listed? n).getD ""

/-- A text in ASCII. -/
def romanize (s : String) : String := String.join (s.toList.map romanizeChar)

/-- The word or sign that a character becomes before anything else. -/
def slugWord (c : Char) : List Char :=
  match c with
  | '&' => "and".toList
  | '@' => "at".toList
  | '"' | '\'' | '’' => []
  | '‒' | '–' | '—' | '―' => ['-']
  | c => [c]

/-- Characters that stay in a slug. -/
def isSlugChar (c : Char) : Bool :=
  ('a' ≤ c && c ≤ 'z') || ('A' ≤ c && c ≤ 'Z') || Number.isDigit c || c == '-' || c == '_'

/-- One hyphen for each run of them. -/
def mergeHyphens : List Char → List Char
  | '-' :: '-' :: cs => mergeHyphens ('-' :: cs)
  | c :: cs => c :: mergeHyphens cs
  | [] => []

/-- A text as small letters, digits, hyphens and underscores. -/
def slug (s : String) : String :=
  let worded := String.ofList ((trimChars s.toList).flatMap slugWord)
  let plain := (lower (romanize worded)).toList.map fun c => if isSlugChar c then c else '-'
  let isEdge := fun (c : Char) => c == '-' || c == '_'
  String.ofList (((mergeHyphens plain).dropWhile isEdge).reverse.dropWhile isEdge).reverse

end DiagramMarkup.Text
