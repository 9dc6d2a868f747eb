import DiagramMarkup.Compile.Siblings

/-!
# Control elements

Repetition, choice and assignment, and elements that change what follows: options, defaults and templates.
-/

namespace DiagramMarkup.Control

open Compile

/-- Draw the content of a control element once, in a frame of its own. -/
def body (inside : Inside) (el : Element) (children : List Node) (order : Order) (vars : Frame) :
    Compile Drawing :=
  withFrame vars (inside.of el children order)

/-! ## Loops -/

/-- What one turn of a loop gives: the loop ended before it, or it drew something and may have been the last. -/
inductive Turn where
  | over
  | drawn (d : Drawing) (last : Bool)

/-- Take turns from number `k` on until `count` turns are done or one ends the loop. `fuel` bounds the number of
turns, and `acc` holds what was drawn, the latest first. -/
def turns (turn : Nat → Compile Turn) (count : Option Nat) :
    Nat → (k : Nat) → (acc : List Drawing) → Compile (List Drawing)
  | 0, k, acc => if count == some k then return acc.reverse else throw .exhausted
  | fuel + 1, k, acc => do
    if count == some k then return acc.reverse
    match ← turn k with
    | .over => return acc.reverse
    | .drawn d true => return (d :: acc).reverse
    | .drawn d false => turns turn count fuel (k + 1) (d :: acc)

/-- The number of turns in `count`, if it is given. A number beyond all bounds counts as none. -/
def loopCount (el : Element) : Compile (Option Nat) := do
  match el.get? "count" with
  | none => return none
  | some v =>
    match (← eval el "count" v).number? with
    | none => raise .parse el "" (.loopCount v)
    | some x =>
      if x < 0 || x != Number.trunc x then raise .parse el "" (.loopCount v)
      else
        let n := Number.toInt x
        ofExcept ((← get).checkLoop (some el) n)
        return if n < 0 then none else some n.toNat

/-- The number in an attribute of a loop. -/
def loopNumber (el : Element) (attr : String) (default : Float) : Compile Float :=
  match el.get? attr with
  | none => pure default
  | some s => readNumber el attr s

/-- Does the test in an attribute of a loop hold? Without a test the default counts. -/
def testHolds (el : Element) (attr : String) (default : Bool) : Option String → Compile Bool
  | none => pure default
  | some t => condition el attr t

/-- The variables of turn `k` of a loop: its attributes, and its own variable if it has one. -/
def loopVars (el : Element) (start step : Float) (k : Nat) : Frame :=
  let vars : Frame := el.attrs.entries
  let var := el.attrs.value "var"
  if var == "" then vars else vars.put var (Number.fixedText (start + Number.ofInt k * step))

/-- Take turn `k` of a loop, unless its condition says that it is over. -/
def loopTurn (inside : Inside) (el : Element) (children : List Node) (while? until? : Option String)
    (start step : Float) (k : Nat) : Compile Turn := do
  if ← testHolds el "while" true while? then
    ofExcept ((← get).checkLoop (some el) (k + 1))
    let d ← body inside el children (el.order.sub k) (loopVars el start step k)
    return .drawn d (← testHolds el "until" false until?)
  else return .over

/-- A loop says how often it turns. -/
def checkForm (el : Element) (while? until? : Option String) : Compile Unit :=
  if el.has "count" || while?.isSome || until?.isSome then pure ()
  else raise .parse el "" .loopForm

/-- Repeat the content a number of times, or while or until a condition holds. Conditions are evaluated afresh in
every turn. -/
def loop (bound : Nat) (inside : Inside) (el : Element) (children : List Node) (order : Order) :
    Compile Drawing := do
  let while? := el.get? "while"
  let until? := el.get? "until"
  let el := { el.eraseAll ["while", "until"] with order := order }
  setCurrent el
  let el ← expandElement el
  setCurrent el
  let count ← loopCount el
  checkForm el while? until?
  let start ← loopNumber el "start" 0
  let step ← loopNumber el "step" 1
  let turn := loopTurn inside el children while? until? start step
  return .concat (← turns turn count (count.getD bound) 0 [])

/-- The items of a list in an attribute. Text that is no expression is split at commas, or at white space when there
is none. -/
def items (el : Element) (data : String) : Compile (List String) :=
  if Text.trim data == "" then pure []
  else do
    let (r, c) := (← get).eval data
    set c
    match r with
    | .ok v => return v.items.map (·.render)
    | .error e =>
      match e.kind with
      | .tokenize | .parse => return asWritten data
      | _ => throw (.expr (some el) "data" e)
where
  /-- The items of a list that is no expression. -/
  asWritten (data : String) : List String :=
    if Text.hasChar ',' data then (Text.splitAt ',' data).map Text.trim else Text.words data

/-- Repeat the content for every item of a list. -/
def each (inside : Inside) (el : Element) (children : List Node) (order : Order) :
    Compile Drawing := do
  let el := { el with order := order }
  setCurrent el
  let el ← expandElement el
  setCurrent el
  match el.get? "data" with
  | none => raise .parse el "" .forData
  | some data =>
    let xs ← items el data
    ofExcept ((← get).checkLoop (some el) xs.length)
    let var := el.attrs.value "var"
    let var := if var == "" then "item" else var
    let index := el.attrs.value "idx-var"
    let ds ← xs.zipIdx.mapM fun (x, k) =>
      let vars := Frame.put el.attrs.entries var x
      let vars := if index == "" then vars else vars.put index (toString k)
      body inside el children (order.sub k) vars
    return .concat ds

/-- Draw the content if the test holds. -/
def branch (inside : Inside) (el : Element) (children : List Node) (order : Order) :
    Compile Drawing := do
  let test := el.get? "test"
  let el := { el.erase "test" with order := order }
  setCurrent el
  match test with
  | none => raise .parse el "" .ifTest
  | some test =>
    let el ← expandElement el
    setCurrent el
    if ← condition el "test" test then body inside el children order el.attrs.entries
    else return {}

/-! ## Definitions -/

/-- Assign variables; each sees the ones before it. -/
def assign (el : Element) (order : Order) : Compile Drawing := do
  let el := { el with order := order }
  setCurrent el
  el.attrs.entries.forM fun p => do
    let v ← expand el p.1 p.2
    update (·.setVar p.1 v)
  return {}

/-- Change options. -/
def config (el : Element) (order : Order) : Compile Drawing := do
  let el ← prepare el order
  el.attrs.entries.forM fun p => do
    set (← orFail el p.1 ((← get).setOption p.1 p.2))
  return {}

/-- Define defaults for the elements that follow. -/
def defaults (children : List Node) (order : Order) : Compile Drawing := do
  children.zipIdx.forM fun (n, i) =>
    match n with
    | .leaf _ => pure ()
    | .element d _ => do
      let d := { d with order := order.sub i }
      setCurrent d
      let d ← expandElement d
      modify fun c => { c with scope := c.scope.addDefault d }
  return {}

/-- Record a template under its identifier. -/
def addTemplate (n : Node) : Compile Unit :=
  match n.element? with
  | none => pure ()
  | some el =>
    if el.id == "" then raise .parse el "" .templateId
    else modify fun c => (c.addTemplate el.id n).markSeen el.id

/-- Record the templates in a definition; definitions do not nest. -/
def templates (children : List Node) : Compile Drawing :=
  let nested := (Node.preorderAll children).findSome? fun n =>
    n.element?.filter (·.name == "specs")
  match nested with
  | some el => raise .reference el "" .nestedSpecs
  | none => do
    children.forM addTemplate
    return {}

end DiagramMarkup.Control
