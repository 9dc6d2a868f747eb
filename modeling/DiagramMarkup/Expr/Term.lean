import DiagramMarkup.Expr.Token

/-!
# Terms

Expressions as trees, and the parser. From loosest to tightest, operators bind as

1. `,` building a list or separating arguments,
2. `and`, `or`, `xor`,
3. `eq`, `ne`, `lt`, `le`, `gt`, `ge`,
4. `+`, `-`,
5. `*`, `/`, `//`, `%`,
6. the minus sign,

all of them to the left. The parser of each level takes the parser of the next tighter one, so that
only the minus sign and the parentheses recurse.
-/

namespace DiagramMarkup.Expr

/-- A parsed expression. -/
inductive Term where
  | number (value : Float)
  | string (text : String)
  | var (name : String)
  | neg (x : Term)
  | binary (op : Op) (left right : Term)
  | call (name : String) (args : List Term)
  | list (items : List Term)
deriving Repr, Inhabited

/-- A parser takes lexemes off the front. -/
abbrev Parser (α : Type) := List Lexeme → Except Cause (α × List Lexeme)

/-- Operators that join conditions. -/
def Op.isLogic : Op → Bool
  | .and | .or | .xor => true
  | _ => false

/-- Operators that compare. -/
def Op.isCompare : Op → Bool
  | .eq | .ne | .lt | .le | .gt | .ge => true
  | _ => false

/-- Sums and differences. -/
def Op.isSum : Op → Bool
  | .add | .sub => true
  | _ => false

/-- Products and quotients. -/
def Op.isProduct : Op → Bool
  | .mul | .div | .floorDiv | .mod => true
  | _ => false

/-- Go on with a chain of operators of one level behind its first operand. -/
def chainFrom (level : Op → Bool) (operand : Parser Term) : Nat → Term → Parser Term
  | fuel + 1, left, .op o :: rest =>
    if level o then
      match operand rest with
      | .error e => .error e
      | .ok (right, rest) => chainFrom level operand fuel (.binary o left right) rest
    else .ok (left, .op o :: rest)
  | _, left, toks => .ok (left, toks)

/-- A chain of operators of one level, grouped to the left. -/
def chain (level : Op → Bool) (operand : Parser Term) : Parser Term := fun toks =>
  match operand toks with
  | .error e => .error e
  | .ok (left, rest) => chainFrom level operand rest.length left rest

/-- An item of a list: everything that binds tighter than a comma. -/
def item (unary : Parser Term) : Parser Term :=
  chain Op.isLogic (chain Op.isCompare (chain Op.isSum (chain Op.isProduct unary)))

/-- Go on with items behind the first one. -/
def itemsFrom (unary : Parser Term) : Nat → Parser (List Term)
  | fuel + 1, .comma :: rest =>
    match item unary rest with
    | .error e => .error e
    | .ok (x, rest) =>
      match itemsFrom unary fuel rest with
      | .error e => .error e
      | .ok (xs, rest) => .ok (x :: xs, rest)
  | _, toks => .ok ([], toks)

/-- Items separated by commas, at least one. -/
def items (unary : Parser Term) : Parser (List Term) := fun toks =>
  match item unary toks with
  | .error e => .error e
  | .ok (x, rest) =>
    match itemsFrom unary rest.length rest with
    | .error e => .error e
    | .ok (xs, rest) => .ok (x :: xs, rest)

/-- One item stands for itself, several make a list. -/
def Term.ofItems : List Term → Term
  | [x] => x
  | xs => .list xs

/-- Items as a single term. -/
def sequence (unary : Parser Term) : Parser Term := fun toks =>
  (items unary toks).map fun (xs, rest) => (Term.ofItems xs, rest)

/-- Signed operands, parenthesised terms and calls; `fuel` bounds the nesting. -/
def unary : Nat → Parser Term
  | 0, _ => .error .openParen
  | fuel + 1, toks =>
    match toks with
    | [] => .error (.unexpected "end of expression")
    | .op .sub :: rest => (unary fuel rest).map fun (x, rest) => (.neg x, rest)
    | .number _ v :: rest => .ok (.number v, rest)
    | .string s :: rest => .ok (.string s, rest)
    | .var name :: rest => .ok (.var name, rest)
    | .lparen :: rest =>
      match sequence (unary fuel) rest with
      | .error e => .error e
      | .ok (x, .rparen :: rest) => .ok (x, rest)
      | .ok _ => .error .openParen
    | .symbol name :: .lparen :: .rparen :: rest => .ok (.call name [], rest)
    | .symbol name :: .lparen :: rest =>
      match items (unary fuel) rest with
      | .error e => .error e
      | .ok (args, .rparen :: rest) => .ok (.call name args, rest)
      | .ok _ => .error (.openCall name)
    | .symbol name :: _ => .error (.bareSymbol name)
    | t :: _ => .error (.unexpected t.text)

/-- The term that the lexemes spell. -/
def parseLexemes (toks : List Lexeme) : Except Cause Term :=
  if toks.isEmpty then .error .emptyExpression
  else
    match sequence (unary (toks.length + 1)) toks with
    | .error e => .error e
    | .ok (x, []) => .ok x
    | .ok (_, t :: _) => .error (.unexpected t.text)

/-- The term that a text spells. -/
def parse (s : String) : Except Cause Term :=
  match tokenize s with
  | .error e => .error e
  | .ok toks => parseLexemes (toks.map Token.lexeme)

end DiagramMarkup.Expr
