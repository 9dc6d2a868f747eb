import Mathlib.Algebra.Order.Round
import Mathlib.Data.Rat.Floor
import DiagramMarkup.Number.Scalar

/-!
# Exact numbers

Doubles round, so laws of arithmetic do not hold for them. The elements of an ordered field are scalars too: sums,
quotients and comparisons are those of the field, and whole numbers are found by its floor. What a field does not give,
roots and angles and the texts of numbers, stays open (`Elementary`).
-/

namespace DiagramMarkup

/-- Roots, angles and texts of numbers. -/
class Elementary (K : Type) where
  sqrt : K → K
  cos : K → K
  sin : K → K
  /-- The angle of the vector `(x, y)`, given as `atan2 y x`. -/
  atan2 : K → K → K
  /-- The length of a vector. -/
  hypot : K → K → K
  pi : K
  sqrtTwo : K
  /-- The text in an attribute. -/
  fixed : K → String
  /-- The text in a message. -/
  general : K → String
  /-- Read a number. -/
  read : String → Except Number.ReadFault K

/-- Rough rational values, for sizes near one. -/
@[reducible] def Elementary.rough : Elementary ℚ where
  sqrt x := (x + 1) / 2
  cos x := 1 - x ^ 2 / 2
  sin x := x
  atan2 y x := y / x
  hypot x y := max |x| |y|
  pi := 22 / 7
  sqrtTwo := 7 / 5
  fixed x := toString x
  general x := toString x
  read s := match s.toInt? with
    | some n => .ok n
    | none => .error .malformed

variable {K : Type} [Field K] [LinearOrder K] [FloorRing K] [Elementary K]

namespace Scalar

/-- The numbers of an ordered field, without rounding. -/
instance exact : Scalar K where
  toAdd := inferInstance
  toSub := inferInstance
  toMul := inferInstance
  toDiv := inferInstance
  toNeg := inferInstance
  toLT := inferInstance
  toLE := inferInstance
  toBEq := instBEqOfDecidableEq
  decLt a b := inferInstanceAs (Decidable (a < b))
  decLe a b := inferInstanceAs (Decidable (a ≤ b))
  ofInt n := n
  toInt x := if 0 ≤ x then ⌊x⌋ else ⌈x⌉
  isFinite _ := true
  least := min
  greatest := max
  ceil x := ⌈x⌉
  round x := if 0 ≤ x then ⌊x + 1 / 2⌋ else ⌈x - 1 / 2⌉
  abs x := |x|
  sqrt := Elementary.sqrt
  cos := Elementary.cos
  sin := Elementary.sin
  atan2 := Elementary.atan2
  hypot := Elementary.hypot
  pi := Elementary.pi
  sqrtTwo := Elementary.sqrtTwo
  fixed := Elementary.fixed
  general := Elementary.general
  read := Elementary.read

@[simp] theorem zero_eq : (zero : K) = 0 := Int.cast_zero

@[simp] theorem one_eq : (one : K) = 1 := Int.cast_one

@[simp] theorem two_eq : (two : K) = 2 := by
  show ((2 : Int) : K) = 2
  norm_num

@[simp] theorem least_eq_min (x y : K) : least x y = min x y := rfl

@[simp] theorem greatest_eq_max (x y : K) : greatest x y = max x y := rfl

@[simp] theorem absolute_eq (x : K) : Scalar.abs x = |x| := rfl

@[simp] theorem isFinite_eq (x : K) : isFinite x = true := rfl

end Scalar

end DiagramMarkup
