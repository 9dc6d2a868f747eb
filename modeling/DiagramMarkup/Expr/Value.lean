import DiagramMarkup.Number.Decimal
import DiagramMarkup.Number.Reader
import DiagramMarkup.Text.Split

/-!
# Values

What expressions evaluate to: numbers, strings, texts taken literally, and lists. Lists are built flat, by splicing
lists into them, but a reader of a value goes into its items as deep as they go. A list of one item counts as that item
where a number is wanted.
-/

namespace DiagramMarkup.Expr

/-- The result of an expression. -/
inductive Value where
  | number (x : Float)
  | string (s : String)
  | text (s : String)
  | list (items : List Value)
deriving Repr, Inhabited

namespace Value

/-- The name of a value's kind. -/
def kind : Value → String
  | .number _ => "number"
  | .string _ => "string"
  | .text _ => "text"
  | .list _ => "list"

/-- Is the value a list? -/
def isList : Value → Bool
  | .list _ => true
  | _ => false

/-- The items of a list; any other value is its own only item. -/
def items : Value → List Value
  | .list xs => xs
  | v => [v]

/-- A flat list: list items are spliced into it. -/
def ofItems (vs : List Value) : Value := .list (vs.flatMap items)

/-- A list of numbers. -/
def ofNumbers (xs : List Float) : Value := .list (xs.map .number)

/-- Truth values are the numbers one and zero. -/
def ofBool (b : Bool) : Value := .number (if b then 1 else 0)

/-- The number in a value: a number itself, a text that reads as one, or the only item of a list. -/
def number? : Value → Option Float
  | .number x => some x
  | .string s => Number.read? (Text.trim s)
  | .text s => Number.read? (Text.trim s)
  | .list [x] => x.number?
  | .list _ => none

/-- Numbers other than zero, non-empty strings and non-empty lists hold. -/
def truthy : Value → Bool
  | .number x => x != 0
  | .string s => s != ""
  | .text s => s != ""
  | .list xs => !xs.isEmpty

mutual

/-- The value in an attribute: list items are joined by commas. -/
def render : Value → String
  | .number x => Number.fixedText x
  | .string s => s
  | .text s => s
  | .list xs => ", ".intercalate (renderAll xs)

/-- The texts of several values. -/
def renderAll : List Value → List String
  | [] => []
  | v :: vs => render v :: renderAll vs

end

/-- Equality of the numbers in two values, if both have one. -/
def numbersEqual? (v w : Value) : Option Bool :=
  match v.number?, w.number? with
  | some x, some y => some (x == y)
  | _, _ => none

/-- Is a value that is no list equal to another one? By number if both have one, else by text. A list must have one
item. -/
def equalItem (v : Value) : Value → Bool
  | .list ys =>
    (numbersEqual? v (.list ys)).getD
      (match ys with
      | [y] => equalItem v y
      | _ => false)
  | w => (numbersEqual? v w).getD (v.render == w.render)

mutual

/-- Are two values equal? By number if both have one; lists are equal item by item. -/
def equal : Value → Value → Bool
  | .list xs, w => (numbersEqual? (.list xs) w).getD (equalAll xs w.items)
  | v, w => equalItem v w

/-- Are values equal, one by one? -/
def equalAll : List Value → List Value → Bool
  | [], [] => true
  | x :: xs, y :: ys => equal x y && equalAll xs ys
  | _, _ => false

end

end Value

end DiagramMarkup.Expr
