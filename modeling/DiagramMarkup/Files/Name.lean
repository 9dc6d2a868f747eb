import DiagramMarkup.Text.Blank

/-!
# File names

Any text can be made into one visible component of a path.
-/

namespace DiagramMarkup.Files

/-- Control characters, which have no place in a file name. -/
def isControl (c : Char) : Bool :=
  let n := c.toNat
  n < 0x20 || (0x7F ≤ n && n < 0xA0)

/-- Characters that divide paths or lists of paths. -/
def isDivider (c : Char) : Bool := c == '/' || c == ':'

/-- The name for a text of which nothing is left. -/
def badName : String := "_bad_file_name_"

/-- The characters of a text that may stand in a file name, without blanks around them and dots in front. -/
def visibleChars (cs : List Char) : List Char :=
  (Text.trimChars (cs.filter fun c => !isControl c && !isDivider c)).dropWhile (· == '.')

/-- A text as one component of a path. -/
def cleanName (s : String) : String :=
  let cs := visibleChars s.toList
  if cs.isEmpty then badName else String.ofList cs

end DiagramMarkup.Files
