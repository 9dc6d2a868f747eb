/-!
# Text as bytes

The UTF-8 form of text, and its reading. A byte that does not belong to a character is read alone, as nothing.
-/

namespace DiagramMarkup.Text

/-- The replacement character. -/
def replacement : Char := '\uFFFD'

/-- The bytes of one character. -/
def charBytes (c : Char) : List UInt8 :=
  let n := c.toNat
  if n < 0x80 then [n.toUInt8]
  else if n < 0x800 then [(0xC0 + n / 64).toUInt8, (0x80 + n % 64).toUInt8]
  else if n < 0x10000 then
    [(0xE0 + n / 4096).toUInt8, (0x80 + n / 64 % 64).toUInt8, (0x80 + n % 64).toUInt8]
  else
    [(0xF0 + n / 262144).toUInt8, (0x80 + n / 4096 % 64).toUInt8, (0x80 + n / 64 % 64).toUInt8,
      (0x80 + n % 64).toUInt8]

/-- The bytes of characters. -/
def toBytes (cs : List Char) : List UInt8 := cs.flatMap charBytes

/-- The characters with the numbers of bytes. -/
def spell (bs : List UInt8) : List Char := bs.map fun b => Char.ofNat b.toNat

/-- Is this a byte behind the first of a character? -/
def isTail (b : UInt8) : Bool := 0x80 ≤ b && b ≤ 0xBF

/-- The six low bits of a byte. -/
def low (b : UInt8) : Nat := b.toNat % 64

/-- The character at the start of bytes, and how many bytes it has behind the first. -/
def firstChar? : List UInt8 → Option (Char × Nat)
  | [] => none
  | a :: rest =>
    if a < 0x80 then some (Char.ofNat a.toNat, 0)
    else if a < 0xC2 || 0xF4 < a then none
    else if a < 0xE0 then
      match rest with
      | b :: _ =>
        if isTail b then some (Char.ofNat ((a.toNat - 0xC0) * 64 + low b), 1) else none
      | _ => none
    else if a < 0xF0 then
      match rest with
      | b :: c :: _ =>
        if isTail b && isTail c && !(a == 0xE0 && b < 0xA0) && !(a == 0xED && 0x9F < b) then
          some (Char.ofNat ((a.toNat - 0xE0) * 4096 + low b * 64 + low c), 2)
        else none
      | _ => none
    else
      match rest with
      | b :: c :: d :: _ =>
        if isTail b && isTail c && isTail d && !(a == 0xF0 && b < 0x90) &&
            !(a == 0xF4 && 0x8F < b) then
          some (Char.ofNat ((a.toNat - 0xF0) * 262144 + low b * 4096 + low c * 64 + low d), 3)
        else none
      | _ => none

/-- Read bytes, of which the first `skip` belong to a character that has been read. -/
def decodeFrom : (skip : Nat) → List UInt8 → List (Option Char)
  | _, [] => []
  | skip + 1, _ :: rest => decodeFrom skip rest
  | 0, a :: rest =>
    match firstChar? (a :: rest) with
    | some (c, k) => some c :: decodeFrom k rest
    | none => none :: decodeFrom 0 rest

/-- The characters of bytes, with nothing for each byte that does not belong to one. -/
def decode (bs : List UInt8) : List (Option Char) := decodeFrom 0 bs

/-- The characters of bytes, with the replacement character for stray bytes. -/
def ofBytes (bs : List UInt8) : List Char := (decode bs).map (·.getD replacement)

end DiagramMarkup.Text
