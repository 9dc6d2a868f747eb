import DiagramMarkup.Number.Binary

/-!
# Reading numbers

The texts that stand for numbers: decimals with an optional exponent, hexadecimal numbers with a
binary exponent, `inf`, `infinity` and `nan` in any case. A single underscore may separate digits or
follow `0x`. A decimal is rounded to the nearest double; one beyond the largest double is an error of
its own.
-/

namespace DiagramMarkup.Number

/-- Why a text is no number. -/
inductive ReadFault where
  | malformed
  | outOfRange
deriving Repr, DecidableEq

/-- ASCII lower case. -/
def lowerAscii (c : Char) : Char := if 'A' ≤ c && c ≤ 'Z' then Char.ofNat (c.toNat + 32) else c

/-- A decimal digit. -/
def isDigit (c : Char) : Bool := '0' ≤ c && c ≤ '9'

/-- A hexadecimal digit. -/
def isHexDigit (c : Char) : Bool :=
  isDigit c || ('a' ≤ lowerAscii c && lowerAscii c ≤ 'f')

/-- The value of a decimal or hexadecimal digit. -/
def digitValue (c : Char) : Nat :=
  if isDigit c then c.toNat - 48 else (lowerAscii c).toNat - 87

/-- The natural number that digits spell. -/
def natOfDigits (base : Nat) (ds : List Char) : Nat :=
  ds.foldl (fun n c => n * base + digitValue c) 0

/-- What the character before an underscore was. -/
inductive Seen where
  | start
  | digit
  | underscore
  | other
deriving DecidableEq

/-- Does every underscore stand between digits? `digit` says which characters are digits. -/
def underscoresFrom (digit : Char → Bool) : Seen → List Char → Bool
  | seen, [] => seen != .underscore
  | seen, c :: cs =>
    if digit c then underscoresFrom digit .digit cs
    else if c == '_' then seen == .digit && underscoresFrom digit .underscore cs
    else seen != .underscore && underscoresFrom digit .other cs

/-- Underscores separate digits, or follow the mark of a base. -/
def underscoresOk (cs : List Char) : Bool :=
  match cs with
  | '0' :: b :: rest =>
    match lowerAscii b with
    | 'x' => underscoresFrom isHexDigit .digit rest
    | 'b' | 'o' => underscoresFrom isDigit .digit rest
    | _ => underscoresFrom isDigit .start cs
  | _ => underscoresFrom isDigit .start cs

/-- Digits around a point: the digits, and how many of them follow the point. -/
structure Mantissa where
  digits : List Char
  scale : Nat
  rest : List Char

/-- Read digits and underscores. -/
def spanDigits (digit : Char → Bool) (cs : List Char) : List Char × List Char :=
  let ok := fun c => digit c || c == '_'
  ((cs.takeWhile ok).filter (· != '_'), cs.dropWhile ok)

/-- Read digits with at most one point. -/
def mantissa (digit : Char → Bool) (cs : List Char) : Mantissa :=
  let (whole, rest) := spanDigits digit cs
  match rest with
  | '.' :: rest' =>
    let (frac, rest') := spanDigits digit rest'
    ⟨whole ++ frac, frac.length, rest'⟩
  | _ => ⟨whole, 0, rest⟩

/-- Exponents beyond this bound are cut off there: the number is zero or out of range anyway. -/
def exponentBound : Nat := 100000

/-- The signed whole number after an exponent mark; it ends the text. -/
def exponent? (cs : List Char) : Option Int :=
  let (neg, cs) := match cs with
    | '+' :: r => (false, r)
    | '-' :: r => (true, r)
    | r => (false, r)
  match cs with
  | [] => none
  | c :: _ =>
    if !isDigit c then none
    else
      let (ds, rest) := spanDigits isDigit cs
      if !rest.isEmpty then none
      else
        let ds := ds.dropWhile (· == '0')
        let n := if ds.length > 6 then exponentBound else min exponentBound (natOfDigits 10 ds)
        some (if neg then -(n : Int) else n)

/-- The double nearest to `±n · base ^ e`. -/
def scale (neg : Bool) (n base : Nat) (e : Int) : Except ReadFault Float :=
  match ofRatio? neg (n * Nat.pow base e.toNat) (Nat.pow base (-e).toNat) with
  | some x => .ok x
  | none => .error .outOfRange

/-- A decimal of so many digits and this exponent is beyond the largest double. -/
def tooLarge (digits : Nat) (e : Int) : Bool := e + digits > 320

/-- A decimal of so many digits and this exponent rounds to zero. -/
def tooSmall (digits : Nat) (e : Int) : Bool := e + digits < -340

/-- Read an unsigned decimal. -/
def readDecimal (neg : Bool) (cs : List Char) : Except ReadFault Float :=
  let m := mantissa isDigit cs
  if m.digits.isEmpty then .error .malformed
  else
    let e? := match m.rest with
      | [] => some 0
      | c :: r => if lowerAscii c == 'e' then exponent? r else none
    match e? with
    | none => .error .malformed
    | some e =>
      if !underscoresOk cs then .error .malformed
      else
        let ds := m.digits.dropWhile (· == '0')
        let e := e - m.scale
        if ds.isEmpty || tooSmall ds.length e then scale neg 0 10 0
        else if tooLarge ds.length e then .error .outOfRange
        else scale neg (natOfDigits 10 ds) 10 e

/-- Read what follows `0x`. -/
def readHex (neg : Bool) (all cs : List Char) : Except ReadFault Float :=
  let m := mantissa isHexDigit cs
  if m.digits.isEmpty then .error .malformed
  else
    match m.rest with
    | c :: r =>
      if lowerAscii c != 'p' then .error .malformed
      else
        match exponent? r with
        | none => .error .malformed
        | some e =>
          if !underscoresOk all then .error .malformed
          else
            let n := natOfDigits 16 m.digits
            let e := e - 4 * m.scale
            if n == 0 || e + 4 * m.digits.length < -1200 then scale neg 0 2 0
            else if e > 1100 then .error .outOfRange
            else scale neg n 2 e
    | [] => .error .malformed

/-- Read an unsigned number that is no word. -/
def readUnsigned (neg : Bool) (cs : List Char) : Except ReadFault Float :=
  match cs with
  | '0' :: x :: c :: r =>
    if lowerAscii x == 'x' then readHex neg cs (c :: r) else readDecimal neg cs
  | _ => readDecimal neg cs

/-- Read a number. -/
def readChars (cs : List Char) : Except ReadFault Float :=
  let lower := cs.map lowerAscii
  if lower == "nan".toList then .ok nan
  else
    let (neg, body) := match cs with
      | '+' :: r => (false, r)
      | '-' :: r => (true, r)
      | r => (false, r)
    let word := body.map lowerAscii
    if word == "inf".toList || word == "infinity".toList then .ok (infinity neg)
    else readUnsigned neg body

/-- Read a number. -/
def read (s : String) : Except ReadFault Float := readChars s.toList

/-- Read a number, whatever the fault. -/
def read? (s : String) : Option Float := (read s).toOption

/-- Read a whole number in decimal digits, within 64 bits. -/
def readInt (s : String) : Except ReadFault Int :=
  let (neg, ds) := match s.toList with
    | '+' :: r => (false, r)
    | '-' :: r => (true, r)
    | r => (false, r)
  if ds.isEmpty || !ds.all isDigit then .error .malformed
  else
    let n : Int := natOfDigits 10 ds
    let n := if neg then -n else n
    if leastInt ≤ n && n ≤ greatestInt then .ok n else .error .outOfRange

/-- Read a truth value. -/
def readBool (s : String) : Except ReadFault Bool :=
  match s with
  | "1" | "t" | "T" | "TRUE" | "true" | "True" => .ok true
  | "0" | "f" | "F" | "FALSE" | "false" | "False" => .ok false
  | _ => .error .malformed

end DiagramMarkup.Number
