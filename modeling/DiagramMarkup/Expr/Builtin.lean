import DiagramMarkup.Expr.Dice
import DiagramMarkup.Expr.Error
import DiagramMarkup.Expr.Token
import DiagramMarkup.Expr.Value

/-!
# Operators and functions

Arithmetic on values, which works item by item on lists, and the library of named functions. A
function says how many arguments it takes and whether list arguments are spliced into the argument
list first.
-/

namespace DiagramMarkup.Expr

/-- Evaluation may draw random numbers and may fail; draws made before a failure stay drawn. -/
abbrev EvalM := ExceptT Cause (StateM Dice)

namespace Value

/-- The number in a value, or a complaint. -/
def toNumber (v : Value) : Except Cause Float :=
  match v.number? with
  | some x => .ok x
  | none => .error (.notNumber v.render)

/-- The numbers in several values. -/
def toNumbers (vs : List Value) : Except Cause (List Float) := vs.mapM toNumber

mutual

/-- Apply a function to a value, or to every item of a list. -/
def mapItems (f : Value → Except Cause Value) : Value → Except Cause Value
  | .list xs => do return .list (← mapAll f xs)
  | v => f v

/-- Apply a function to values and to the items of lists among them. -/
def mapAll (f : Value → Except Cause Value) : List Value → Except Cause (List Value)
  | [] => return []
  | x :: xs => do
    let y ← mapItems f x
    let ys ← mapAll f xs
    return y :: ys

end

mutual

/-- Combine two values, lists of the same length item by item. A value that is no list is combined with every item of a
list. -/
def zipItems (f : Value → Value → Except Cause Value) : Value → Value → Except Cause Value
  | .list xs, .list ys =>
    if xs.length == ys.length then do return .list (← zipAll f xs ys)
    else .error (.lengthMismatch xs.length ys.length)
  | .list xs, w => mapItems (fun v => f v w) (.list xs)
  | v, w => mapItems (f v) w

/-- Combine values one by one. -/
def zipAll (f : Value → Value → Except Cause Value) : List Value → List Value → Except Cause (List Value)
  | x :: xs, y :: ys => do
    let z ← zipItems f x y
    let zs ← zipAll f xs ys
    return z :: zs
  | _, _ => return []

end

/-- Apply a function to a number, or to every item of a list. -/
def mapNumber (f : Float → Except Cause Float) (v : Value) : Except Cause Value :=
  v.mapItems fun x => do
    let n ← x.toNumber
    return .number (← f n)

end Value

/-- The remainder that has the sign of the divisor. -/
def floorMod (a b : Float) : Float := a - b * Number.floor (a / b)

/-- Arithmetic on two numbers. -/
def applyOp (op : Op) (a b : Float) : Except Cause Float :=
  match op with
  | .add => .ok (a + b)
  | .sub => .ok (a - b)
  | .mul => .ok (a * b)
  | .div => if b == 0 then .error .divisionByZero else .ok (a / b)
  | .floorDiv => if b == 0 then .error .divisionByZero else .ok (Number.floor (a / b))
  | _ => if b == 0 then .error .moduloByZero else .ok (floorMod a b)

/-- Arithmetic on two items. -/
def arithItem (op : Op) (l r : Value) : Except Cause Float := do
  let a ← l.toNumber
  let b ← r.toNumber
  applyOp op a b

/-- Arithmetic on values. A single value is combined with every item of a list. -/
def arith (op : Op) (l r : Value) : Except Cause Value := l.zipItems (fun a b => (arithItem op a b).map .number) r

/-- Compare two numbers. -/
def compareNumbers (op : Op) (a b : Float) : Bool :=
  match op with
  | .lt => a < b
  | .le => a ≤ b
  | .gt => b < a
  | _ => b ≤ a

/-- Compare two texts. -/
def compareTexts (op : Op) (a b : String) : Bool :=
  match op with
  | .lt => a < b
  | .le => !(b < a)
  | .gt => b < a
  | _ => !(a < b)

/-- Compare two values: as numbers if both have one, else as texts. Lists cannot be compared. -/
def compareValues (op : Op) (l r : Value) : Except Cause Value :=
  match l.number?, r.number? with
  | some a, some b => .ok (.ofBool (compareNumbers op a b))
  | _, _ =>
    if l.isList || r.isList then .error (.notComparable l.kind r.kind)
    else .ok (.ofBool (compareTexts op l.render r.render))

/-- Apply a binary operator. Two texts that are no numbers are joined by `+`. -/
def applyBinary (op : Op) (l r : Value) : Except Cause Value :=
  match op with
  | .and => .ok (.ofBool (l.truthy && r.truthy))
  | .or => .ok (.ofBool (l.truthy || r.truthy))
  | .xor => .ok (.ofBool (l.truthy != r.truthy))
  | .eq => .ok (.ofBool (l.equal r))
  | .ne => .ok (.ofBool (!l.equal r))
  | .lt | .le | .gt | .ge => compareValues op l r
  | .add =>
    if !l.isList && !r.isList && l.number?.isNone && r.number?.isNone then
      .ok (.string (l.render ++ r.render))
    else arith op l r
  | _ => arith op l r

/-- A named function. -/
structure Builtin where
  /-- The least number of arguments. -/
  min : Nat
  /-- The greatest number of arguments, if there is one. -/
  max : Option Nat
  /-- Are list arguments spliced into the argument list? -/
  flatten : Bool := false
  call : List Value → EvalM Value

/-- The longest list that `range` makes. -/
def maxRange : Nat := 100000

/-- Degrees as radians. -/
def radians (d : Float) : Float := d * Number.pi / 180

/-- Radians as degrees. -/
def degrees (r : Float) : Float := r * 180 / Number.pi

namespace Builtin

/-- A function that draws nothing. -/
def pure (min : Nat) (max : Option Nat) (flatten : Bool)
    (f : List Value → Except Cause Value) : Builtin :=
  ⟨min, max, flatten, fun vs => ExceptT.mk (Pure.pure (f vs))⟩

/-- A function of one number, also applied to every item of a list. -/
def number1 (f : Float → Except Cause Float) : Builtin :=
  pure 1 (some 1) false fun
    | v :: _ => v.mapNumber f
    | [] => .error .reduceEmpty

/-- A total function of one number. -/
def total1 (f : Float → Float) : Builtin := number1 fun x => .ok (f x)

/-- A function of two numbers, which may be given as one list when `flatten`. -/
def number2 (flatten : Bool) (f : Float → Float → Except Cause Value) : Builtin :=
  pure 2 (some 2) flatten fun vs => do
    match ← Value.toNumbers (vs.take 2) with
    | [x, y] => f x y
    | _ => throw .reduceEmpty

/-- A function of three numbers. -/
def number3 (f : Float → Float → Float → Except Cause Value) : Builtin :=
  pure 3 (some 3) false fun vs => do
    match ← Value.toNumbers vs with
    | [x, y, z] => f x y z
    | _ => throw .reduceEmpty

/-- A function of one value. -/
def value1 (f : Value → Value) : Builtin :=
  pure 1 (some 1) false fun
    | v :: _ => .ok (f v)
    | [] => .error .reduceEmpty

/-- A function of two values. -/
def value2 (f : Value → Value → Except Cause Value) : Builtin :=
  pure 2 (some 2) false fun
    | v :: w :: _ => f v w
    | _ => .error .reduceEmpty

/-- A condition on two values. -/
def test2 (f : Value → Value → Bool) : Builtin := value2 fun v w => .ok (.ofBool (f v w))

/-- Combine all numbers of a non-empty list. -/
def reduce (f : Float → List Float → Float) : Builtin :=
  pure 0 none true fun vs => do
    if vs.isEmpty then throw .reduceEmpty
    match ← Value.toNumbers vs with
    | x :: xs => return .number (f x xs)
    | [] => throw .reduceEmpty

/-- A function of any number of items, at least `min`. -/
def onItems (min : Nat) (f : List Value → Except Cause Value) : Builtin := pure min none true f

/-- Sum from the left, starting at zero. -/
def sumOf (xs : List Float) : Float := xs.foldl (· + ·) 0

/-- Arithmetic on the two halves of a list. -/
def halves (op : Op) (vs : List Value) : Except Cause Value :=
  if vs.length % 2 != 0 then .error (.oddVector vs.length)
  else
    let half := vs.length / 2
    arith op (.ofItems (vs.take half)) (.ofItems (vs.drop half))

/-- The numbers from `start` up to but not including `stop`. -/
def rangeOf (start stop step : Float) : Except Cause Value :=
  if step == 0 then .error .rangeStep
  else
    let n := Number.ceil ((stop - start) / step)
    if Number.ofInt maxRange < n then .error (.rangeLength n maxRange)
    else
      .ok (.ofNumbers ((List.range (Number.toInt n).toNat).map fun k =>
        start + Number.ofInt (Int.ofNat k) * step))

/-- The item at an index. -/
def selectItem : List Value → Except Cause Value
  | [] => .error .noIndex
  | i :: xs =>
    match i.number? with
    | none => .error (.indexNotNumber i.render)
    | some f =>
      let k := Number.toInt f
      if k < 0 || Number.ofInt k != f then .error (.indexRange f xs.length)
      else
        match xs[k.toNat]? with
        | some x => .ok x
        | none => .error (.indexRange f xs.length)

/-- Ask the random source. -/
def draw {α : Type} (request : Source → Nat → α × Nat) : EvalM α := modifyGet (Dice.draw request)

/-- A whole number between two bounds. -/
def randint (vs : List Value) : EvalM Value := do
  match ← (Value.toNumbers (vs.take 2) : Except Cause (List Float)) with
  | [a, b] =>
    let lo := Number.ceil a
    let hi := Number.floor b
    if hi < lo then throw (.randintEmpty lo hi)
    if Number.ofInt Number.greatestInt ≤ hi - lo then throw (.randintLarge lo hi)
    let n := Number.toInt (hi - lo) + 1
    if n ≤ 0 then throw (.randintLarge lo hi)
    let k ← draw (·.below n)
    return .number (lo + Number.ofInt k)
  | _ => throw .reduceEmpty

/-- A normally distributed number. -/
def gauss (vs : List Value) : EvalM Value := do
  match ← (Value.toNumbers (vs.take 2) : Except Cause (List Float)) with
  | [mean, sigma] =>
    if sigma < 0 then throw (.negativeSigma sigma)
    let x ← draw (·.normal mean sigma)
    return .number x
  | _ => throw .reduceEmpty

/-- Undo the escapes of quotes, backslashes and line feeds. -/
def unescapeChars : List Char → List Char
  | '\\' :: '\'' :: rest => '\'' :: unescapeChars rest
  | '\\' :: '"' :: rest => '"' :: unescapeChars rest
  | '\\' :: '\\' :: rest => '\\' :: unescapeChars rest
  | '\\' :: 'n' :: rest => '\n' :: unescapeChars rest
  | c :: rest => c :: unescapeChars rest
  | [] => []

/-- Undo the escapes of quotes, backslashes and line feeds. -/
def unescape (s : String) : String := String.ofList (unescapeChars s.toList)

/-- All arguments as one literal text. -/
def asText (vs : List Value) : Value :=
  .text (unescape (String.join ((vs.flatMap Value.items).map Value.render)))

/-- The function with this name. -/
def find? : String → Option Builtin
  | "abs" => some (total1 Float.abs)
  | "ceil" => some (total1 Number.ceil)
  | "floor" => some (total1 Number.floor)
  | "fract" => some (total1 fun x => x - Number.floor x)
  | "sign" => some (total1 fun x => if 0 < x then 1 else if x < 0 then -1 else 0)
  | "sqrt" => some (number1 fun x => if x < 0 then .error (.sqrtNegative x) else .ok x.sqrt)
  | "log" => some (number1 fun x => if x ≤ 0 then .error (.logDomain x) else .ok x.log)
  | "exp" => some (total1 Float.exp)
  | "sin" => some (total1 fun x => (radians x).sin)
  | "cos" => some (total1 fun x => (radians x).cos)
  | "tan" => some (total1 fun x => (radians x).tan)
  | "asin" => some (number1 fun x =>
      if x < -1 || 1 < x then .error (.asinDomain x) else .ok (degrees x.asin))
  | "acos" => some (number1 fun x =>
      if x < -1 || 1 < x then .error (.acosDomain x) else .ok (degrees x.acos))
  | "atan" => some (total1 fun x => degrees x.atan)
  | "atan2" => some (number2 false fun y x => .ok (.number (degrees (Float.atan2 y x))))
  | "pow" => some (number2 false fun a b =>
      let r := Float.pow a b
      if Number.isFinite r then .ok (.number r) else .error (.powInfinite a b))
  | "divmod" => some (number2 false fun x y =>
      if y == 0 then .error .divmodByZero
      else .ok (.ofNumbers [Number.floor (x / y), floorMod x y]))
  | "clamp" => some (number3 fun x lo hi =>
      if hi < lo then .error (.clampEmpty lo hi)
      else .ok (.number (Number.least (Number.greatest x lo) hi)))
  | "mix" => some (number3 fun a b t => .ok (.number (a + (b - a) * t)))
  | "min" => some (reduce fun x xs => xs.foldl Number.least x)
  | "max" => some (reduce fun x xs => xs.foldl Number.greatest x)
  | "sum" => some (reduce fun x xs => sumOf (x :: xs))
  | "product" => some (reduce fun x xs => (x :: xs).foldl (· * ·) 1)
  | "mean" => some (reduce fun x xs => sumOf (x :: xs) / Number.ofInt (xs.length + 1))
  | "eq" => some (test2 Value.equal)
  | "ne" => some (test2 fun v w => !v.equal w)
  | "lt" => some (value2 (compareValues .lt))
  | "le" => some (value2 (compareValues .le))
  | "gt" => some (value2 (compareValues .gt))
  | "ge" => some (value2 (compareValues .ge))
  | "not" => some (value1 fun v => .ofBool (!v.truthy))
  | "and" => some (test2 fun v w => v.truthy && w.truthy)
  | "or" => some (test2 fun v w => v.truthy || w.truthy)
  | "xor" => some (test2 fun v w => v.truthy != w.truthy)
  | "if" => some (pure 3 (some 3) false fun
      | c :: v :: w :: _ => .ok (if c.truthy then v else w)
      | _ => .error .reduceEmpty)
  | "random" => some ⟨0, some 0, false, fun _ => do return .number (← draw Source.uniform)⟩
  | "randint" => some ⟨2, some 2, false, randint⟩
  | "gauss" => some ⟨2, some 2, false, gauss⟩
  | "range" => some (pure 1 (some 3) false fun vs => do
      match ← Value.toNumbers vs with
      | [stop] => rangeOf 0 stop 1
      | [start, stop] => rangeOf start stop 1
      | start :: stop :: step :: _ => rangeOf start stop step
      | [] => throw .reduceEmpty)
  | "addv" => some (onItems 0 (halves .add))
  | "subv" => some (onItems 0 (halves .sub))
  | "scalev" => some (onItems 1 fun
      | k :: xs => arith .mul k (.ofItems xs)
      | [] => .error .reduceEmpty)
  | "head" => some (onItems 0 fun
      | x :: _ => .ok x
      | [] => .error .headEmpty)
  | "tail" => some (onItems 0 fun
      | _ :: xs => .ok (.ofItems xs)
      | [] => .error .tailEmpty)
  | "count" => some (onItems 0 fun xs => .ok (.number (Number.ofInt xs.length)))
  | "empty" => some (onItems 0 fun xs => .ok (.ofBool xs.isEmpty))
  | "in" => some (onItems 1 fun
      | x :: xs => .ok (.ofBool (xs.any x.equal))
      | [] => .error .reduceEmpty)
  | "select" => some (onItems 0 selectItem)
  | "swap" => some (value2 fun v w => .ok (.ofItems [w, v]))
  | "r2p" => some (number2 true fun x y =>
      .ok (.ofNumbers [Number.hypot x y, degrees (Float.atan2 y x)]))
  | "p2r" => some (number2 true fun r t =>
      .ok (.ofNumbers [r * (radians t).cos, r * (radians t).sin]))
  | "split" => some (value2 fun sep v =>
      if sep.render == "" then .error .emptySeparator
      else .ok (.list ((Text.splitText sep.render v.render).map .string)))
  | "splitw" => some (value1 fun v => .list ((Text.words v.render).map .string))
  | "trim" => some (value1 fun v => .string (Text.trim v.render))
  | "join" => some (onItems 1 fun
      | sep :: xs => .ok (.string (sep.render.intercalate (xs.map Value.render)))
      | [] => .error .reduceEmpty)
  | "_" => some (pure 0 none false fun vs => .ok (asText vs))
  | _ => none

end Builtin

end DiagramMarkup.Expr
