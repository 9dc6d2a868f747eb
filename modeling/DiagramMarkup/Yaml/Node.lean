import DiagramMarkup.Number.Reader

/-!
# Settings notation: nodes

The part of YAML that settings use: scalars and mappings whose keys are scalars. An unquoted scalar is a word
whose spelling decides what it stands for (`resolve`); a quoted one is always text.
-/

namespace DiagramMarkup.Yaml

/-- A node of a document. -/
inductive Node where
  /-- An unquoted scalar. -/
  | bare (word : String)
  /-- A quoted scalar. -/
  | text (s : String)
  /-- Entries in the order in which they are written. -/
  | map (entries : List (String × Node))

/-- What an unquoted scalar stands for. -/
inductive Scalar where
  | null
  | bool (b : Bool)
  | int (n : Int)
  | float (x : Float)
  | time
  | text

/-! ## Whole numbers and fractions -/

/-- The base that leading characters ask for, and the digits behind them. A leading zero asks for octal digits. -/
def radix : List Char → Nat × List Char
  | '0' :: c :: ds =>
    match Number.lowerAscii c with
    | 'x' => (16, ds)
    | 'o' => (8, ds)
    | 'b' => (2, ds)
    | _ => (8, c :: ds)
  | ds => (10, ds)

/-- Is this a digit to the base? -/
def isDigitOf (base : Nat) (c : Char) : Bool := Number.isHexDigit c && Number.digitValue c < base

/-- A whole number within 64 bits; without a sign it may use all of them. -/
def int? (cs : List Char) : Option Int :=
  let (sign, body) := match cs with
    | '-' :: r => (some true, r)
    | '+' :: r => (some false, r)
    | r => (none, r)
  let (base, ds) := radix body
  if ds.isEmpty || !ds.all (isDigitOf base) then none
  else
    let m : Int := Number.natOfDigits base ds
    let n := if sign == some true then -m else m
    let top : Int := if sign.isNone then 2 * Number.greatestInt + 1 else Number.greatestInt
    if Number.leastInt ≤ n && n ≤ top then some n else none

/-- Does the text have the form of a decimal fraction with an optional exponent? -/
def isDecimal (cs : List Char) : Bool :=
  let cs := match cs with
    | '-' :: r | '+' :: r => r
    | r => r
  let (whole, rest) := cs.span Number.isDigit
  let (frac, rest, point) := match rest with
    | '.' :: r => (r.takeWhile Number.isDigit, r.dropWhile Number.isDigit, true)
    | r => ([], r, false)
  let exponent := match rest with
    | [] => true
    | e :: r =>
      let ds := match r with
        | '-' :: r | '+' :: r => r
        | r => r
      Number.lowerAscii e == 'e' && !ds.isEmpty && ds.all Number.isDigit
  (!whole.isEmpty || (point && !frac.isEmpty)) && exponent

/-! ## Points in time -/

/-- One or two digits below a bound, and what follows them. -/
def upTo (bound : Nat) (cs : List Char) : Option (Nat × List Char) :=
  let ds := (cs.take 2).takeWhile Number.isDigit
  let n := Number.natOfDigits 10 ds
  if ds.isEmpty || bound ≤ n then none else some (n, cs.drop ds.length)

/-- What follows a character. -/
def expect (c : Char) : List Char → Option (List Char)
  | d :: cs => if d == c then some cs else none
  | [] => none

/-- The days of a month. -/
def daysIn (year month : Nat) : Nat :=
  if month == 2 then if year % 4 == 0 && (year % 100 != 0 || year % 400 == 0) then 29 else 28
  else if month == 4 || month == 6 || month == 9 || month == 11 then 30
  else 31

/-- A date, and what follows it. -/
def afterDate? (cs : List Char) : Option (List Char) := do
  let ds := cs.takeWhile Number.isDigit
  if ds.length != 4 then none
  let year := Number.natOfDigits 10 ds
  let (month, cs) ← upTo 13 (← expect '-' (cs.drop 4))
  let (day, cs) ← upTo 32 (← expect '-' cs)
  if month == 0 || day == 0 || daysIn year month < day then none
  return cs

/-- A time of day, and what follows it. -/
def afterClock? (cs : List Char) : Option (List Char) := do
  let (_, cs) ← upTo 24 cs
  let (_, cs) ← upTo 60 (← expect ':' cs)
  let (_, cs) ← upTo 60 (← expect ':' cs)
  match cs with
  | '.' :: d :: r => if Number.isDigit d then return r.dropWhile Number.isDigit else none
  | cs => return cs

/-- Is this a time zone? -/
def isZone : List Char → Bool
  | ['Z'] => true
  | [s, a, b, ':', c, d] => (s == '+' || s == '-') && [a, b, c, d].all Number.isDigit
  | _ => false

/-- Does the text name a point in time: a date, or a date with a time of day? -/
def isTime (cs : List Char) : Bool :=
  match afterDate? cs with
  | some [] => true
  | some (' ' :: r) => afterClock? r == some []
  | some (t :: r) => (t == 'T' || t == 't') && ((afterClock? r).map isZone).getD false
  | none => false

/-! ## Resolution -/

/-- The words that stand for themselves. -/
def wordScalar? : String → Option Scalar
  | "" | "~" | "null" | "Null" | "NULL" => some .null
  | "true" | "True" | "TRUE" => some (.bool true)
  | "false" | "False" | "FALSE" => some (.bool false)
  | ".nan" | ".NaN" | ".NAN" => some (.float Number.nan)
  | ".inf" | ".Inf" | ".INF" | "+.inf" | "+.Inf" | "+.INF" => some (.float (Number.infinity false))
  | "-.inf" | "-.Inf" | "-.INF" => some (.float (Number.infinity true))
  | _ => none

/-- A number by its spelling. Underscores may stand anywhere in it. -/
def numberScalar (cs : List Char) : Scalar :=
  let plain := cs.filter (· != '_')
  match int? plain with
  | some n => .int n
  | none =>
    if isDecimal plain then
      match Number.readChars plain with
      | .ok x => .float x
      | .error _ => .text
    else .text

/-- What an unquoted scalar stands for. -/
def resolve (word : String) : Scalar :=
  match wordScalar? word with
  | some s => s
  | none =>
    match word.toList with
    | [] => .null
    | c :: cs =>
      if c == '.' then
        match Number.readChars (c :: cs) with
        | .ok x => .float x
        | .error _ => .text
      else if Number.isDigit c || c == '+' || c == '-' then
        if isTime (c :: cs) then .time else numberScalar (c :: cs)
      else .text

namespace Node

/-- What a scalar stands for; a mapping is none. -/
def scalar? : Node → Option Scalar
  | .bare w => some (resolve w)
  | .text _ => some .text
  | .map _ => none

/-- Does the node leave its value open? -/
def isNull (n : Node) : Bool :=
  match n.scalar? with
  | some .null => true
  | _ => false

/-- The text of a scalar, whatever it stands for. -/
def string? : Node → Option String
  | .bare w => some w
  | .text s => some s
  | .map _ => none

/-- A scalar as a whole number within 64 bits. A fraction is cut off toward zero. -/
def int? (n : Node) : Option Int :=
  match n.scalar? with
  | some (.int k) => if k ≤ Number.greatestInt then some k else none
  | some (.float x) => if x ≤ Number.ofInt (Number.greatestInt + 1) then some (Number.toInt x) else none
  | _ => none

/-- A scalar as a number. -/
def float? (n : Node) : Option Float :=
  match n.scalar? with
  | some (.int k) => some (Number.ofInt k)
  | some (.float x) => some x
  | _ => none

/-- A scalar as a truth value. The short words count also in quotes. -/
def bool? (n : Node) : Option Bool :=
  match n.scalar?, n.string? with
  | some (.bool b), _ => some b
  | some .text, some w =>
    if ["y", "Y", "yes", "on"].contains w then some true
    else if ["n", "N", "no", "off"].contains w then some false
    else none
  | _, _ => none

end Node

end DiagramMarkup.Yaml
