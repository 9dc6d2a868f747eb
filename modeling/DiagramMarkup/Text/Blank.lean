/-!
# White space

Which characters separate words, and trimming text at both ends. The class is the Unicode property
`White_Space`, so a no-break space or an ideographic space separates words like a plain blank.
-/

namespace DiagramMarkup.Text

/-- Characters with the Unicode property `White_Space`. -/
def isBlank (c : Char) : Bool :=
  let n := c.toNat
  (9 ≤ n && n ≤ 13) || n == 32 || n == 0x85 || n == 0xA0 || n == 0x1680 ||
    (0x2000 ≤ n && n ≤ 0x200A) || n == 0x2028 || n == 0x2029 || n == 0x202F || n == 0x205F ||
    n == 0x3000

/-- Drop blanks at the start. -/
def trimStart (cs : List Char) : List Char := cs.dropWhile isBlank

/-- Drop blanks at both ends. -/
def trimChars (cs : List Char) : List Char := (trimStart (trimStart cs).reverse).reverse

/-- Drop blanks at both ends of a text. -/
def trim (s : String) : String := String.ofList (trimChars s.toList)

/-- A text of blanks only. -/
def isBlankText (s : String) : Bool := s.toList.all isBlank

theorem isBlank_space : isBlank ' ' = true := by decide

theorem trimStart_nil : trimStart [] = [] := rfl

theorem trimChars_nil : trimChars [] = [] := rfl

end DiagramMarkup.Text
