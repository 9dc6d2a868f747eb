import DiagramMarkup.Fault
import DiagramMarkup.Geometry.Box
import DiagramMarkup.Text.Split

/-!
# Lists of numbers

Attribute values that hold several numbers, separated by white space and commas.
-/

namespace DiagramMarkup.Numbers

/-- White space and commas separate numbers. -/
def isSeparator (c : Char) : Bool := Text.isBlank c || c == ','

/-- The parts of a list of numbers. -/
def split (s : String) : List String :=
  (Text.wordsWhere isSeparator s.toList).map String.ofList

variable {α : Type} [Scalar α]

/-- Read a list of numbers. -/
def parse (s : String) : Except Fault (List α) :=
  (split s).mapM fun p =>
    match Scalar.read? p with
    | some x => .ok x
    | none => .error (.numberIn p s)

/-- Read one number, which is used for both, or two. -/
def parsePair (s : String) : Except Fault (Point α) := do
  match ← parse s with
  | [x] => return ⟨x, x⟩
  | [x, y] => return ⟨x, y⟩
  | _ => throw (.notPair s)

end DiagramMarkup.Numbers
