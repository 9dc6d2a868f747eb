import DiagramMarkup.Text.Printable

/-!
# Quoted text

How messages show a text: between double quotes, with quotes and backslashes escaped, the usual
letters for the common control characters and hexadecimal escapes for whatever is not printable.
-/

namespace DiagramMarkup.Text

/-- The `width` lowest hexadecimal digits of `n`, lower case. -/
def hexDigits (width n : Nat) : List Char :=
  let ds := Nat.toDigits 16 n
  List.replicate (width - ds.length) '0' ++ ds

/-- One character inside quotes of the kind `quote`. -/
def quoteChar (quote c : Char) : List Char :=
  if c == quote || c == '\\' then ['\\', c]
  else if isPrintable c then [c]
  else
    match c.toNat with
    | 7 => ['\\', 'a']
    | 8 => ['\\', 'b']
    | 12 => ['\\', 'f']
    | 10 => ['\\', 'n']
    | 13 => ['\\', 'r']
    | 9 => ['\\', 't']
    | 11 => ['\\', 'v']
    | n =>
      if n < 0x20 || n == 0x7F then ['\\', 'x'] ++ hexDigits 2 n
      else if n < 0x10000 then ['\\', 'u'] ++ hexDigits 4 n
      else ['\\', 'U'] ++ hexDigits 8 n

/-- A text between double quotes. -/
def quote (s : String) : String :=
  String.ofList (['"'] ++ s.toList.flatMap (quoteChar '"') ++ ['"'])

/-- A character between single quotes. -/
def quoteSingle (c : Char) : String :=
  String.ofList (['\''] ++ quoteChar '\'' c ++ ['\''])

/-- The first byte of a character's UTF-8 form, as the character with that code. Offending characters
in expressions and path data are reported by this byte. -/
def leadByte (c : Char) : Char :=
  let n := c.toNat
  if n < 0x80 then c
  else if n < 0x800 then Char.ofNat (0xC0 + n / 64)
  else if n < 0x10000 then Char.ofNat (0xE0 + n / 4096)
  else Char.ofNat (0xF0 + n / 262144)

end DiagramMarkup.Text
