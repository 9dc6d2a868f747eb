import DiagramMarkup.Expr.Builtin
import DiagramMarkup.Expr.Term

/-!
# Evaluation

A variable holds a text. Where it occurs in an expression its text is read as a number or parsed and
evaluated in turn, and stands for itself when it is neither. How deep variables may lead to variables
is limited; `evalLevel n` evaluates with `n` levels left.
-/

namespace DiagramMarkup.Expr

/-- What an expression can see: the texts of variables, and a limit on their nesting. -/
structure Env where
  var? : String → Option String
  maxDepth : Int := 0

/-- The nesting limit of an environment that sets none. -/
def defaultMaxDepth : Nat := 100

/-- The nesting limit in force. -/
def Env.limit (env : Env) : Nat := if env.maxDepth ≤ 0 then defaultMaxDepth else env.maxDepth.toNat

/-- Call a function by name. -/
def callBuiltin (name : String) (args : List Value) : EvalM Value :=
  match Builtin.find? name with
  | none => throw (.unknownFunction name)
  | some f =>
    let args := if f.flatten then args.flatMap Value.items else args
    let enough := f.min ≤ args.length
    let notTooMany := match f.max with
      | none => true
      | some max => args.length ≤ max
    if enough && notTooMany then f.call args
    else throw (.arity name f.min f.max args.length)

mutual

/-- Evaluate a term; `deref` gives the value of a variable. Operands are evaluated left to right. -/
def evalTerm (deref : String → EvalM Value) : Term → EvalM Value
  | .number v => return .number v
  | .string s => return .string s
  | .var name => deref name
  | .neg x => do
    let v ← evalTerm deref x
    (v.mapNumber fun n => .ok (-n) : Except Cause Value)
  | .binary op l r => do
    let v ← evalTerm deref l
    let w ← evalTerm deref r
    (applyBinary op v w : Except Cause Value)
  | .call name args =>
    if (Builtin.find? name).isNone then throw (.unknownFunction name)
    else do
      let vs ← evalTerms deref args
      callBuiltin name vs
  | .list items => do
    let vs ← evalTerms deref items
    return .ofItems vs

/-- Evaluate terms from left to right. -/
def evalTerms (deref : String → EvalM Value) : List Term → EvalM (List Value)
  | [] => return []
  | t :: ts => do
    let v ← evalTerm deref t
    let vs ← evalTerms deref ts
    return v :: vs

end

/-- What the text of a variable is: a number, a term, or just text. -/
inductive Meaning where
  | number (x : Float)
  | term (t : Term)
  | text

/-- Read the text of a variable. -/
def meaning (raw : String) : Meaning :=
  let text := Text.trim raw
  match Number.read? text with
  | some x => .number x
  | none =>
    if text == "" then .text
    else
      match parse text with
      | .ok t => .term t
      | .error _ => .text

/-- Evaluate a term with so many levels of variables left. -/
def evalLevel (env : Env) : Nat → Term → EvalM Value
  | 0 => evalTerm fun name =>
    match env.var? name with
    | none => throw (.unknownVariable name)
    | some _ => throw (.tooDeep name env.limit)
  | levels + 1 => evalTerm fun name =>
    match env.var? name with
    | none => throw (.unknownVariable name)
    | some raw =>
      match meaning raw with
      | .number x => return .number x
      | .text => return .string raw
      | .term t => evalLevel env levels t

/-- Evaluation of a whole text, with the text in its errors. -/
abbrev TextM := ExceptT Error (StateM Dice)

/-- Evaluate the text of an expression. -/
def eval (env : Env) (s : String) : TextM Value := ExceptT.mk fun dice =>
  match parse s with
  | .error cause => (.error ⟨cause, s⟩, dice)
  | .ok t =>
    match (evalLevel env env.limit t).run dice with
    | (.ok v, dice) => (.ok v, dice)
    | (.error cause, dice) => (.error ⟨cause, s⟩, dice)

end DiagramMarkup.Expr
