/-!
# Doubles as exact numbers

A finite double is `±m · 2 ^ q` for natural `m` and an integer `q`. This module takes a double apart
into these three parts, rounds a quotient of naturals to the nearest double, and derives the
conversions to integers and the rounding functions from the exact value, so that each of them is an
ordinary definition on `Nat` and `Int`.
-/

namespace DiagramMarkup.Number

/-- The exact value `±m · 2 ^ q` of a finite double. -/
structure Exact where
  neg : Bool
  m : Nat
  q : Int
deriving Repr, DecidableEq

/-- What a double stands for. -/
inductive Reading where
  | nan
  | infinite (neg : Bool)
  | finite (x : Exact)
deriving Repr, DecidableEq

/-- Take the bits of a double apart. -/
def reading (x : Float) : Reading :=
  let bits := x.toBits.toNat
  let neg := bits / Nat.pow 2 63 == 1
  let e : Nat := bits / Nat.pow 2 52 % 2048
  let f := bits % Nat.pow 2 52
  if e == 2047 then
    if f == 0 then .infinite neg else .nan
  else if e == 0 then .finite ⟨neg, f, -1074⟩
  else .finite ⟨neg, Nat.pow 2 52 + f, (e : Int) - 1075⟩

/-- `num / den` rounded to the nearest natural, a half to the even neighbour. -/
def divHalfEven (num den : Nat) : Nat :=
  let d := num / den
  let r := num % den
  if 2 * r < den then d
  else if den < 2 * r then d + 1
  else if d % 2 == 0 then d
  else d + 1

/-- `2 ^ k` as a numerator: one for negative `k`. -/
def pow2Num (k : Int) : Nat := Nat.pow 2 k.toNat

/-- The bits of the double nearest to `num / den`, for positive `den`, a half to the even neighbour.
Values too large give the bits of infinity or more. -/
def ratioBits (num den : Nat) : Nat :=
  if num == 0 then 0
  else
    let e := (Nat.log2 num : Int) - (Nat.log2 den : Int)
    let small := num * pow2Num (-e) < den * pow2Num e
    let e := if small then e - 1 else e
    let q := max (e - 52) (-1074)
    let m := divHalfEven (num * pow2Num (-q)) (den * pow2Num q)
    (q + 1074).toNat * Nat.pow 2 52 + m

/-- The bits of positive infinity. -/
def infinityBits : Nat := 2047 * Nat.pow 2 52

/-- The double nearest to `±num / den`, or nothing when it is out of range. -/
def ofRatio? (neg : Bool) (num den : Nat) : Option Float :=
  let bits := ratioBits num den
  if bits < infinityBits then
    some (Float.ofBits (UInt64.ofNat (bits + if neg then Nat.pow 2 63 else 0)))
  else none

/-- Not a number. -/
def nan : Float := Float.ofBits 0x7FF8000000000001

/-- Positive or negative infinity. -/
def infinity (neg : Bool) : Float :=
  Float.ofBits (if neg then 0xFFF0000000000000 else 0x7FF0000000000000)

/-- Is this double neither infinite nor NaN? -/
def isFinite (x : Float) : Bool :=
  match reading x with
  | .finite _ => true
  | _ => false

/-- The integer part, toward zero, of an exact value. -/
def Exact.truncate (x : Exact) : Int :=
  let n := x.m * pow2Num x.q / pow2Num (-x.q)
  if x.neg then -(n : Int) else n

/-- Has the exact value a fractional part? -/
def Exact.hasFraction (x : Exact) : Bool :=
  x.m * pow2Num x.q % pow2Num (-x.q) != 0

/-- The greatest integer that is at most the value. -/
def Exact.floor (x : Exact) : Int :=
  if x.neg && x.hasFraction then x.truncate - 1 else x.truncate

/-- The least integer that is at least the value. -/
def Exact.ceil (x : Exact) : Int :=
  if !x.neg && x.hasFraction then x.truncate + 1 else x.truncate

/-- The nearest integer, a half away from zero. -/
def Exact.roundHalfAway (x : Exact) : Int :=
  let num := x.m * pow2Num x.q
  let den := pow2Num (-x.q)
  let n := (2 * num + den) / (2 * den)
  if x.neg then -(n : Int) else n

/-- The double of an integer that came from rounding `x`: zero keeps the sign of `x`. -/
def withSign (neg : Bool) (n : Int) : Float :=
  match ofRatio? neg n.natAbs 1 with
  | some y => y
  | none => infinity neg

/-- Apply an integer rounding to a double, leaving infinities and NaN alone. -/
def roundWith (f : Exact → Int) (x : Float) : Float :=
  match reading x with
  | .finite e => withSign e.neg (f e)
  | _ => x

/-- The greatest whole double that is at most `x`. -/
def floor (x : Float) : Float := roundWith Exact.floor x

/-- The least whole double that is at least `x`. -/
def ceil (x : Float) : Float := roundWith Exact.ceil x

/-- The whole part of `x`, toward zero. -/
def trunc (x : Float) : Float := roundWith Exact.truncate x

/-- The whole double nearest to `x`, a half away from zero. -/
def roundHalfAway (x : Float) : Float := roundWith Exact.roundHalfAway x

/-- The least 64-bit integer, which also stands for every double that has no 64-bit integer part. -/
def leastInt : Int := -(Nat.pow 2 63 : Nat)

/-- The greatest 64-bit integer. -/
def greatestInt : Int := (Nat.pow 2 63 : Nat) - 1

/-- Conversion to a 64-bit integer, toward zero. -/
def toInt (x : Float) : Int :=
  match reading x with
  | .finite e =>
    let n := e.truncate
    if leastInt ≤ n && n ≤ greatestInt then n else leastInt
  | _ => leastInt

/-- The double nearest to an integer. -/
def ofInt (n : Int) : Float := withSign (n < 0) n

/-- The lesser of two doubles: negative infinity wins, then NaN, and `-0` is less than `0`. -/
def least (x y : Float) : Float :=
  if x == infinity true || y == infinity true then infinity true
  else if x.isNaN || y.isNaN then nan
  else if x == 0 && y == 0 then (if x.toBits.toNat / Nat.pow 2 63 == 1 then x else y)
  else if x < y then x
  else y

/-- The greater of two doubles: positive infinity wins, then NaN, and `0` is greater than `-0`. -/
def greatest (x y : Float) : Float :=
  if x == infinity false || y == infinity false then infinity false
  else if x.isNaN || y.isNaN then nan
  else if x == 0 && y == 0 then (if x.toBits.toNat / Nat.pow 2 63 == 1 then y else x)
  else if y < x then x
  else y

/-- The length of the vector `(p, q)`: the longer side scaled by `√(1 + (shorter / longer)²)`. -/
def hypot (p q : Float) : Float :=
  let p := p.abs
  let q := q.abs
  if p == infinity false || q == infinity false then infinity false
  else if p.isNaN || q.isNaN then nan
  else
    let a := if p < q then q else p
    let b := if p < q then p else q
    if a == 0 then 0
    else
      let r := b / a
      a * Float.sqrt (1 + r * r)

/-- The double nearest to π. -/
def pi : Float := Float.ofBits 0x400921FB54442D18

/-- The double nearest to √2. -/
def sqrtTwo : Float := Float.ofBits 0x3FF6A09E667F3BCD

end DiagramMarkup.Number
