import DiagramMarkup.Number.Reader
import DiagramMarkup.Text.Blank
import DiagramMarkup.Text.Bytes
import DiagramMarkup.Text.Chart

/-!
# Character sets

The character sets that a document may declare, by their labels, and how bytes are read in them. Sets with
several bytes for a character are read where they agree with ASCII.
-/

namespace DiagramMarkup.Text

/-- A way to read bytes as text. -/
inductive Charset where
  | utf8
  /-- ASCII, and a chart for the upper half. -/
  | chart (runs : List (Nat × Nat × Nat))
  /-- ASCII, and the private use area for the upper half. -/
  | userDefined
  /-- ASCII, and several bytes for everything else. -/
  | multibyte
  | utf16 (bigEndian : Bool)
  /-- A set that is not read at all. -/
  | replaced

namespace Charset

/-- The character of a byte above ASCII in a chart. -/
def inChart (runs : List (Nat × Nat × Nat)) (b : Nat) : Char :=
  match runs.find? fun (lo, _, n) => lo ≤ b && b < lo + n with
  | some (lo, c, _) => Char.ofNat (c + (b - lo))
  | none => replacement

/-- The text of 16-bit units; a half of a pair that stands alone is replaced. -/
def ofUnits : List Nat → List Char
  | [] => []
  | [u] => [if 0xD800 ≤ u && u < 0xE000 then replacement else Char.ofNat u]
  | u :: v :: rest =>
    if 0xD800 ≤ u && u < 0xDC00 && 0xDC00 ≤ v && v < 0xE000 then
      Char.ofNat (0x10000 + (u - 0xD800) * 1024 + (v - 0xDC00)) :: ofUnits rest
    else if 0xD800 ≤ u && u < 0xE000 then replacement :: ofUnits (v :: rest)
    else Char.ofNat u :: ofUnits (v :: rest)

/-- The 16-bit units of bytes, and whether a byte is left over. -/
def units (bigEndian : Bool) : List UInt8 → List Nat × Bool
  | [] => ([], false)
  | [_] => ([], true)
  | a :: b :: rest =>
    let (us, odd) := units bigEndian rest
    ((if bigEndian then a.toNat * 256 + b.toNat else b.toNat * 256 + a.toNat) :: us, odd)

/-- Read bytes in a character set. -/
def decode (set : Charset) (bs : List UInt8) : List Char :=
  match set with
  | .utf8 => ofBytes bs
  | .chart runs => bs.map fun b => if b < 0x80 then Char.ofNat b.toNat else inChart runs b.toNat
  | .userDefined =>
    bs.map fun b => Char.ofNat (if b < 0x80 then b.toNat else 0xF700 + b.toNat)
  | .multibyte => bs.map fun b => if b < 0x80 then Char.ofNat b.toNat else replacement
  | .utf16 bigEndian =>
    let (us, odd) := units bigEndian bs
    ofUnits us ++ if odd then [replacement] else []
  | .replaced => if bs.isEmpty then [] else [replacement]

/-- The labels of the character sets. -/
def labels : List (List String × Charset) :=
  [(["utf-8", "utf8", "unicode-1-1-utf-8", "unicode11utf8", "unicode20utf8", "x-unicode20utf8"], .utf8),
   (["windows-1252", "iso-8859-1", "iso8859-1", "iso88591", "iso_8859-1", "iso_8859-1:1987",
     "iso-ir-100", "latin1", "l1", "csisolatin1", "ascii", "us-ascii", "ansi_x3.4-1968", "cp1252",
     "x-cp1252", "cp819", "ibm819"], .chart Chart.windows1252),
   (["ibm866", "866", "cp866", "csibm866"], .chart Chart.ibm866),
   (["iso-8859-2", "iso8859-2", "iso88592", "iso_8859-2", "iso_8859-2:1987", "iso-ir-101", "latin2",
     "l2", "csisolatin2"], .chart Chart.iso88592),
   (["iso-8859-3", "iso8859-3", "iso88593", "iso_8859-3", "iso_8859-3:1988", "iso-ir-109", "latin3",
     "l3", "csisolatin3"], .chart Chart.iso88593),
   (["iso-8859-4", "iso8859-4", "iso88594", "iso_8859-4", "iso_8859-4:1988", "iso-ir-110", "latin4",
     "l4", "csisolatin4"], .chart Chart.iso88594),
   (["iso-8859-5", "iso8859-5", "iso88595", "iso_8859-5", "iso_8859-5:1988", "iso-ir-144", "cyrillic",
     "csisolatincyrillic"], .chart Chart.iso88595),
   (["iso-8859-6", "iso8859-6", "iso88596", "iso_8859-6", "iso_8859-6:1987", "iso-ir-127", "arabic",
     "asmo-708", "ecma-114", "csisolatinarabic", "iso-8859-6-e", "iso-8859-6-i", "csiso88596e",
     "csiso88596i"], .chart Chart.iso88596),
   (["iso-8859-7", "iso8859-7", "iso88597", "iso_8859-7", "iso_8859-7:1987", "iso-ir-126", "greek",
     "greek8", "ecma-118", "elot_928", "csisolatingreek", "sun_eu_greek"], .chart Chart.iso88597),
   (["iso-8859-8", "iso8859-8", "iso88598", "iso_8859-8", "iso_8859-8:1988", "iso-ir-138", "hebrew",
     "visual", "csisolatinhebrew", "iso-8859-8-e", "csiso88598e", "iso-8859-8-i", "csiso88598i",
     "logical"], .chart Chart.iso88598),
   (["iso-8859-10", "iso8859-10", "iso885910", "iso-ir-157", "latin6", "l6", "csisolatin6"],
     .chart Chart.iso885910),
   (["iso-8859-13", "iso8859-13", "iso885913"], .chart Chart.iso885913),
   (["iso-8859-14", "iso8859-14", "iso885914"], .chart Chart.iso885914),
   (["iso-8859-15", "iso8859-15", "iso885915", "iso_8859-15", "csisolatin9", "l9"],
     .chart Chart.iso885915),
   (["iso-8859-16"], .chart Chart.iso885916),
   (["koi8-r", "koi", "koi8", "koi8_r", "cskoi8r"], .chart Chart.koi8R),
   (["koi8-u", "koi8-ru"], .chart Chart.koi8U),
   (["macintosh", "mac", "x-mac-roman", "csmacintosh"], .chart Chart.macintosh),
   (["windows-874", "dos-874", "tis-620", "iso-8859-11", "iso8859-11", "iso885911"],
     .chart Chart.windows874),
   (["windows-1250", "cp1250", "x-cp1250"], .chart Chart.windows1250),
   (["windows-1251", "cp1251", "x-cp1251"], .chart Chart.windows1251),
   (["windows-1253", "cp1253", "x-cp1253"], .chart Chart.windows1253),
   (["windows-1254", "cp1254", "x-cp1254", "iso-8859-9", "iso8859-9", "iso88599", "iso_8859-9",
     "iso_8859-9:1989", "iso-ir-148", "latin5", "l5", "csisolatin5"], .chart Chart.windows1254),
   (["windows-1255", "cp1255", "x-cp1255"], .chart Chart.windows1255),
   (["windows-1256", "cp1256", "x-cp1256"], .chart Chart.windows1256),
   (["windows-1257", "cp1257", "x-cp1257"], .chart Chart.windows1257),
   (["windows-1258", "cp1258", "x-cp1258"], .chart Chart.windows1258),
   (["x-mac-cyrillic", "x-mac-ukrainian"], .chart Chart.macCyrillic),
   (["gbk", "chinese", "csgb2312", "csiso58gb231280", "gb2312", "gb_2312", "gb_2312-80", "iso-ir-58",
     "x-gbk", "gb18030", "big5", "big5-hkscs", "cn-big5", "csbig5", "x-x-big5", "euc-jp",
     "cseucpkdfmtjapanese", "x-euc-jp", "iso-2022-jp", "csiso2022jp", "shift_jis", "shift-jis",
     "csshiftjis", "ms932", "ms_kanji", "sjis", "windows-31j", "x-sjis", "euc-kr", "cseuckr",
     "csksc56011987", "iso-ir-149", "korean", "ks_c_5601-1987", "ks_c_5601-1989", "ksc5601",
     "ksc_5601", "windows-949"], .multibyte),
   (["utf-16be", "unicodefffe"], .utf16 true),
   (["utf-16le", "utf-16", "unicode", "csunicode", "iso-10646-ucs-2", "ucs-2", "unicodefeff"],
     .utf16 false),
   (["x-user-defined"], .userDefined),
   (["replacement", "csiso2022kr", "hz-gb-2312", "iso-2022-cn", "iso-2022-cn-ext", "iso-2022-kr"],
     .replaced)]

/-- The character set with a label, in letters of any case. -/
def ofLabel? (label : String) : Option Charset :=
  let name := (trim label).map Number.lowerAscii
  (labels.find? fun (names, _) => names.contains name).map (·.2)

end Charset

end DiagramMarkup.Text
