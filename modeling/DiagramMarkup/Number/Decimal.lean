import DiagramMarkup.Number.Binary

/-!
# Decimal texts of doubles

Two rules. *Fixed*: the exact value rounded to three places, a half to the even neighbour, without
trailing zeros and without a sign on zero; this is how numbers appear in attributes. *Shortest*: the
fewest decimal digits that read back as the same double, nearest to it among those; this is how
numbers appear in messages.

The shortest digits are searched for directly: for one digit, two digits and so on, the two decimals
next to the value are tested for lying in the interval of numbers that round to the double.
-/

namespace DiagramMarkup.Number

/-- Decimal digits of a natural. -/
def digitsOf (n : Nat) : List Char := Nat.toDigits 10 n

/-- Drop trailing zeros. -/
def stripZeros (ds : List Char) : List Char := (ds.reverse.dropWhile (· == '0')).reverse

/-- A natural number of units of `10 ^ -places`, written with a point. -/
def positional (places n : Nat) : List Char :=
  let ds := digitsOf n
  let ds := List.replicate (places + 1 - ds.length) '0' ++ ds
  let k := ds.length - places
  let frac := stripZeros (ds.drop k)
  if frac.isEmpty then ds.take k else ds.take k ++ ['.'] ++ frac

/-- Numbers in attributes have at most three places. -/
def places : Nat := 3

/-- The text of a number in an attribute. -/
def fixedText (x : Float) : String :=
  match reading x with
  | .nan => "NaN"
  | .infinite true => "-Inf"
  | .infinite false => "+Inf"
  | .finite e =>
    let n := divHalfEven (e.m * Nat.pow 10 places * pow2Num e.q) (pow2Num (-e.q))
    let t := positional places n
    String.ofList (if e.neg && n != 0 then '-' :: t else t)

/-- The number of decimal digits before the point of `num / den`, less one; negative for values
below one. -/
def decimalExponent (num den : Nat) : Int :=
  if den ≤ num then ((digitsOf (num / den)).length : Int) - 1
  else
    let k := (digitsOf (den / num)).length
    if den ≤ num * Nat.pow 10 (k - 1) then -((k : Int) - 1) else -(k : Int)

/-- The values that round to a double, scaled by a common denominator: `low ≤ x ≤ high`, with the
ends included when `closed`. -/
structure Interval where
  value : Nat
  low : Nat
  high : Nat
  den : Nat
  closed : Bool

/-- The interval of numbers that round to `m · 2 ^ q`. -/
def interval (m : Nat) (q : Int) : Interval :=
  let s := pow2Num q
  let low := if m == Nat.pow 2 52 && q > -1074 then 4 * m - 1 else 4 * m - 2
  ⟨4 * m * s, low * s, (4 * m + 2) * s, 4 * pow2Num (-q), m % 2 == 0⟩

/-- Does `d` units of `10 ^ k` lie in the interval? -/
def Interval.holds (i : Interval) (k : Int) (d : Nat) : Bool :=
  let up := Nat.pow 10 (-k).toNat
  let x := d * i.den * Nat.pow 10 k.toNat
  if i.closed then i.low * up ≤ x && x ≤ i.high * up else i.low * up < x && x < i.high * up

/-- The decimal next to the value on the grid of `10 ^ k` that lies in the interval, the nearer one
when both do and the even one at a tie. -/
def Interval.onGrid? (i : Interval) (k : Int) : Option Nat :=
  let num := i.value * Nat.pow 10 (-k).toNat
  let den := i.den * Nat.pow 10 k.toNat
  let d := num / den
  match i.holds k d, i.holds k (d + 1) with
  | true, true => some (divHalfEven num den)
  | true, false => some d
  | false, true => some (d + 1)
  | false, false => none

/-- Try ever finer grids, starting at `10 ^ k`. -/
def Interval.search (i : Interval) : Nat → Int → Nat × Int
  | 0, k => (i.value * Nat.pow 10 (-k).toNat / (i.den * Nat.pow 10 k.toNat), k)
  | fuel + 1, k =>
    match i.onGrid? k with
    | some d => (d, k)
    | none => i.search fuel (k - 1)

/-- The fewest digits of a positive exact value, and the exponent of the first of them. -/
def shortestDigits (e : Exact) : List Char × Int :=
  let i := interval e.m e.q
  let (d, k) := i.search 17 (decimalExponent i.value i.den)
  let ds := digitsOf d
  (stripZeros ds, k + ds.length - 1)

/-- The least and the first too great exponent that are written without an exponent. -/
def plainExponents : Int × Int := (-4, 6)

/-- Digits with a point after the first `exponent + 1` of them. -/
def pointed (ds : List Char) (exponent : Int) : List Char :=
  if exponent < 0 then
    ['0', '.'] ++ List.replicate (-exponent - 1).toNat '0' ++ ds
  else
    let k := (exponent + 1).toNat
    if ds.length ≤ k then ds ++ List.replicate (k - ds.length) '0'
    else ds.take k ++ ['.'] ++ ds.drop k

/-- Digits with a point after the first one and an exponent of at least two digits. -/
def scientific (ds : List Char) (exponent : Int) : List Char :=
  let mant := match ds with
    | [] => []
    | [d] => [d]
    | d :: rest => [d, '.'] ++ rest
  let es := digitsOf exponent.natAbs
  let es := if es.length < 2 then '0' :: es else es
  mant ++ ['e', if exponent < 0 then '-' else '+'] ++ es

/-- Write a double through its shortest digits; `write` gets the digits and their exponent. -/
def shortestWith (write : List Char → Int → List Char) (x : Float) : String :=
  match reading x with
  | .nan => "NaN"
  | .infinite true => "-Inf"
  | .infinite false => "+Inf"
  | .finite e =>
    let t := if e.m == 0 then ['0'] else
      let (ds, exponent) := shortestDigits e
      write ds exponent
    String.ofList (if e.neg then '-' :: t else t)

/-- The shortest text that reads back, with an exponent for very small and for large values. -/
def generalText (x : Float) : String :=
  shortestWith (fun ds e =>
    if e < plainExponents.1 || plainExponents.2 ≤ e then scientific ds e else pointed ds e) x

/-- The shortest text that reads back, never with an exponent. -/
def plainText (x : Float) : String := shortestWith pointed x

end DiagramMarkup.Number
