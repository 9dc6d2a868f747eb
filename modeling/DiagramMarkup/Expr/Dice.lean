import DiagramMarkup.Number.Scalar

/-!
# Random draws

Where random numbers come from is left open. A generator has a sequence of raw numbers for every seed, of which a draw
takes one or more off; what it makes of them is its own affair. So a source answers a request by the number of raw
numbers that are taken already, and a compilation is about every source.
-/

namespace DiagramMarkup.Expr

/-- A random source. It answers each request with what is drawn and with how many raw numbers that takes besides the
first, and may look at the number of raw numbers that were taken before. -/
structure Source where
  /-- A number from 0 up to 1. -/
  uniform : Nat → Float × Nat
  /-- A whole number from 0 up to a bound. -/
  below : Int → Nat → Int × Nat
  /-- A number that is normally distributed, with a mean and a deviation. -/
  normal : Float → Float → Nat → Float × Nat

namespace Source

/-- The source that reads its draws from a script, in a circle. An empty script draws one half every time. -/
def scripted (script : List Float) : Source :=
  let u := fun k => (script[k % script.length]?).getD 0.5
  { uniform := fun k => (u k, 0)
    below := fun n k => (Number.toInt (u k * Number.ofInt n), 0)
    normal := fun mean sigma k => (mean + sigma * u k, 0) }

instance : Coe (List Float) Source := ⟨scripted⟩

instance : Inhabited Source := ⟨scripted []⟩

end Source

/-- A random source at work, with the number of raw numbers that were taken from it. -/
structure Dice where
  source : Source := .scripted []
  drawn : Nat := 0
deriving Inhabited

namespace Dice

/-- The answer of the source to a request. -/
def draw {α : Type} (request : Source → Nat → α × Nat) (d : Dice) : α × Dice :=
  let (x, more) := request d.source d.drawn
  (x, { d with drawn := d.drawn + 1 + more })

end Dice

end DiagramMarkup.Expr
