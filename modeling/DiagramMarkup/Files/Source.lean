import DiagramMarkup.Files.Path
import DiagramMarkup.Number.Reader
import DiagramMarkup.Text.Charset
import DiagramMarkup.Text.Lower
import DiagramMarkup.Xml.Reader

/-!
# Source files

How a file is recognised as a diagram, and how its bytes are read. A byte order mark names the encoding; without one
the XML declaration decides.
-/

namespace DiagramMarkup.Files

/-- The encoding that a byte order mark names. -/
inductive Encoding where
  | unmarked
  | utf8
  | utf16 (bigEndian : Bool)
  | utf32 (bigEndian : Bool)
deriving Repr, DecidableEq

namespace Encoding

/-- The name of an encoding. -/
def name : Encoding → String
  | .unmarked => "unknown"
  | .utf8 => "utf-8"
  | .utf16 true => "utf-16be"
  | .utf16 false => "utf-16le"
  | .utf32 true => "utf-32be"
  | .utf32 false => "utf-32le"

/-- The byte order marks. A longer mark stands before the one that it starts with. -/
def marks : List (List UInt8 × Encoding) :=
  [([0x00, 0x00, 0xFE, 0xFF], .utf32 true), ([0xFF, 0xFE, 0x00, 0x00], .utf32 false),
    ([0xEF, 0xBB, 0xBF], .utf8), ([0xFE, 0xFF], .utf16 true), ([0xFF, 0xFE], .utf16 false)]

/-- The mark at the start of bytes. -/
def mark? (bs : List UInt8) : Option (List UInt8 × Encoding) := marks.find? fun m => m.1.isPrefixOf bs

/-- The encoding of bytes by their mark. -/
def detect (bs : List UInt8) : Encoding := ((mark? bs).map (·.2)).getD .unmarked

/-- The text of 16-bit units. Halves of pairs that stand alone are replaced, and so is a second half together with
the one behind it. -/
def ofUnits : List Nat → List Char
  | [] => []
  | [u] => [if 0xD800 ≤ u && u < 0xE000 then Text.replacement else Char.ofNat u]
  | u :: v :: rest =>
    if 0xD800 ≤ u && u < 0xE000 then
      if 0xDC00 ≤ v && v < 0xE000 then
        (if u < 0xDC00 then Char.ofNat (0x10000 + (u - 0xD800) * 1024 + (v - 0xDC00))
          else Text.replacement) :: ofUnits rest
      else Text.replacement :: ofUnits (v :: rest)
    else Char.ofNat u :: ofUnits (v :: rest)

/-- The character of a 32-bit unit. -/
def ofWord (n : Nat) : Char := if n.isValidChar then Char.ofNat n else Text.replacement

/-- The text of 32-bit units; bytes left over at the end are replaced together. -/
def ofWords (bigEndian : Bool) : List UInt8 → List Char
  | [] => []
  | a :: b :: c :: d :: rest =>
    let n := fun (p q r s : UInt8) => ((p.toNat * 256 + q.toNat) * 256 + r.toNat) * 256 + s.toNat
    ofWord (if bigEndian then n a b c d else n d c b a) :: ofWords bigEndian rest
  | _ => [Text.replacement]

/-- The text of marked bytes, without the mark. -/
def decode (e : Encoding) (bs : List UInt8) : List Char :=
  match e with
  | .unmarked => Text.ofBytes bs
  | .utf8 => Text.ofBytes (bs.drop 3)
  | .utf16 bigEndian =>
    let (us, odd) := Text.Charset.units bigEndian (bs.drop 2)
    ofUnits us ++ if odd then [Text.replacement] else []
  | .utf32 bigEndian => ofWords bigEndian (bs.drop 4)

end Encoding

/-! ## Recognition -/

/-- How much of a file is looked at. -/
def headerSize : Nat := 8192

/-- What may follow the name in an opening tag. -/
def endsTagName (c : Char) : Bool :=
  c == ' ' || c == '\t' || c == '\r' || c == '\n' || c == '>' || c == '/'

/-- Is this the opening tag of a drawing? -/
def opensDrawing (cs : List Char) : Bool :=
  match cs with
  | '<' :: 's' :: 'v' :: 'g' :: c :: _ => endsTagName c
  | _ => false

/-- Does a drawing follow the prolog? Comments, processing instructions and declarations are skipped, each of which
takes at least one character off the text. -/
def matchesFuel : Nat → List Char → Bool
  | 0, _ => false
  | fuel + 1, cs =>
    let cs := Text.trimStart cs
    if "<!--".toList.isPrefixOf cs then
      match Text.breakOn "-->".toList cs with
      | some (_, rest) => matchesFuel fuel rest
      | none => false
    else if "<?".toList.isPrefixOf cs || "<!".toList.isPrefixOf cs then
      match Text.breakOn ['>'] cs with
      | some (_, rest) => matchesFuel fuel rest
      | none => false
    else opensDrawing cs

/-- Is the text a drawing? -/
def matchesChars (cs : List Char) : Bool := matchesFuel (cs.length + 1) (Text.trimChars cs)

/-- Are the bytes, taken as they are, a drawing? Stray bytes are no white space. -/
def matchesBytes (bs : List UInt8) : Bool := matchesChars (Text.ofBytes bs)

/-- Is the start of a file that of a drawing? -/
def matchesHeader (bs : List UInt8) : Bool := matchesChars ((Encoding.detect bs).decode bs)

/-- Does the extension promise a diagram? -/
def hasSourceExt (name : String) : Bool :=
  let e := Text.lower (Path.ext name)
  e == ".svg" || e == ".xml"

/-- Is a file with this name and content a diagram? -/
def isSource (name : String) (bs : List UInt8) : Bool :=
  hasSourceExt name && matchesHeader (bs.take headerSize)

/-! ## Reading -/

/-- White space in a declaration. -/
def isDeclGap (c : Char) : Bool := c == '\t' || c == '\n' || c == '\x0c' || c == '\r' || c == ' '

/-- What follows an encoding setting at the start of a text. -/
def afterEncoding? (cs : List Char) : Option (List Char) := do
  guard ((cs.head?.map isDeclGap).getD false)
  let rest := cs.dropWhile isDeclGap
  guard ("encoding".toList.isPrefixOf rest)
  match (rest.drop 8).dropWhile isDeclGap with
  | '=' :: rest =>
    match rest.dropWhile isDeclGap with
    | q :: rest =>
      guard (q == '"' || q == '\'')
      match rest.dropWhile fun c => c != '"' && c != '\'' with
      | _ :: rest => return rest
      | [] => none
    | [] => none
  | _ => none

/-- Take the first encoding setting out of a declaration. -/
def dropSetting : List Char → Option (List Char)
  | [] => none
  | c :: cs =>
    match afterEncoding? (c :: cs) with
    | some rest => some rest
    | none => if c == '>' then none else (dropSetting cs).map (c :: ·)

/-- The text without the encoding in its XML declaration. -/
def dropEncoding (cs : List Char) : List Char :=
  let gap := cs.takeWhile isDeclGap
  let rest := cs.dropWhile isDeclGap
  if "<?xml".toList.isPrefixOf rest then
    match dropSetting (rest.drop 5) with
    | some tail => gap ++ "<?xml".toList ++ tail
    | none => cs
  else cs

/-- The bytes of a source in UTF-8. Marked sources are converted here, so their declaration no longer names an
encoding; others are left to the XML reader. -/
def sourceBytes (e : Encoding) (bs : List UInt8) : List UInt8 :=
  match e with
  | .unmarked => bs
  | e => Text.toBytes (dropEncoding (e.decode bs))

end DiagramMarkup.Files
