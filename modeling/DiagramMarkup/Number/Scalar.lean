import DiagramMarkup.Number.Decimal
import DiagramMarkup.Number.Reader

/-!
# Scalars

The numbers that coordinates are made of. Geometry is written once over this class: it runs on
doubles, and statements about it may be read over exact numbers, where sums and comparisons obey the
laws of an ordered field.
-/

namespace DiagramMarkup

/-- Numbers with arithmetic, decidable comparison, and a text form in both directions. -/
class Scalar (α : Type) extends Add α, Sub α, Mul α, Div α, Neg α, LT α, LE α, BEq α where
  /-- Comparison can be decided. -/
  decLt : (a b : α) → Decidable (a < b)
  /-- Comparison can be decided. -/
  decLe : (a b : α) → Decidable (a ≤ b)
  /-- The scalar of an integer. -/
  ofInt : Int → α
  /-- The integer part, toward zero. -/
  toInt : α → Int
  /-- Is this an ordinary number, neither infinite nor undefined? -/
  isFinite : α → Bool
  /-- The lesser of two numbers. -/
  least : α → α → α
  /-- The greater of two numbers. -/
  greatest : α → α → α
  /-- The least whole number that is at least the argument. -/
  ceil : α → α
  /-- The nearest whole number, a half away from zero. -/
  round : α → α
  abs : α → α
  sqrt : α → α
  cos : α → α
  sin : α → α
  /-- The angle of the vector `(x, y)`, given as `atan2 y x`. -/
  atan2 : α → α → α
  /-- The length of a vector. -/
  hypot : α → α → α
  pi : α
  sqrtTwo : α
  /-- The text in an attribute: at most three places. -/
  fixed : α → String
  /-- The text in a message: the shortest that reads back. -/
  general : α → String
  /-- Read a number. -/
  read : String → Except Number.ReadFault α

namespace Scalar

variable {α : Type} [Scalar α]

instance (a b : α) : Decidable (a < b) := Scalar.decLt a b

instance (a b : α) : Decidable (a ≤ b) := Scalar.decLe a b

/-- The number zero. -/
def zero : α := ofInt 0

/-- The number one. -/
def one : α := ofInt 1

/-- The number two. -/
def two : α := ofInt 2

instance : Inhabited α := ⟨zero⟩

/-- Read a number, whatever the fault. -/
def read? (s : String) : Option α := (read s).toOption

end Scalar

instance : Scalar Float where
  decLt := fun a b => (inferInstance : Decidable (a < b))
  decLe := fun a b => (inferInstance : Decidable (a ≤ b))
  ofInt := Number.ofInt
  toInt := Number.toInt
  isFinite := Number.isFinite
  least := Number.least
  greatest := Number.greatest
  ceil := Number.ceil
  round := Number.roundHalfAway
  abs := Float.abs
  sqrt := Float.sqrt
  cos := Float.cos
  sin := Float.sin
  atan2 := Float.atan2
  hypot := Number.hypot
  pi := Number.pi
  sqrtTwo := Number.sqrtTwo
  fixed := Number.fixedText
  general := Number.generalText
  read := Number.read

end DiagramMarkup
