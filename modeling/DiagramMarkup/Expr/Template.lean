import DiagramMarkup.Expr.Eval

/-!
# Templates

Text with references to variables, `$name` or `$` and a name in braces, and with expressions in double
braces. Outside the double braces a reference to a known variable is replaced by its raw text, once.
-/

namespace DiagramMarkup.Expr

/-- The reference that starts behind a dollar sign: its name, the characters that spell it without the
dollar sign, and the rest. -/
def reference? (cs : List Char) : Option (List Char × List Char × List Char) :=
  match cs with
  | '{' :: rest =>
    match Text.breakOn ['}'] rest with
    | none => none
    | some ([], _) => none
    | some (name, rest) => some (name, '{' :: name ++ ['}'], rest)
  | c :: _ =>
    if isWordStart c then
      let name := cs.takeWhile isWordChar
      some (name, name, cs.dropWhile isWordChar)
    else none
  | [] => none

/-- Replace the references in a text: those to unknown variables stay as written. Each step takes at
least one character off the text. -/
def substituteFuel (var? : String → Option String) : Nat → List Char → List Char
  | 0, _ => []
  | _ + 1, [] => []
  | fuel + 1, c :: cs =>
    if c == '$' then
      match reference? cs with
      | some (name, source, rest) =>
        match var? (String.ofList name) with
        | some v => v.toList ++ substituteFuel var? fuel rest
        | none => c :: source ++ substituteFuel var? fuel rest
      | none => c :: substituteFuel var? fuel cs
    else c :: substituteFuel var? fuel cs

/-- Replace the references in a text, if it holds a dollar sign at all. -/
def substituteChars (var? : String → Option String) (cs : List Char) : List Char :=
  if cs.contains '$' then substituteFuel var? cs.length cs else cs

/-- Replace the references in a text. -/
def substitute (var? : String → Option String) (s : String) : String :=
  String.ofList (substituteChars var? s.toList)

/-- The names that a text refers to. Each step takes at least one character off the text. -/
def varRefsFuel : Nat → List Char → List String
  | 0, _ => []
  | _ + 1, [] => []
  | fuel + 1, c :: cs =>
    if c == '$' then
      match reference? cs with
      | some (name, _, rest) => String.ofList name :: varRefsFuel fuel rest
      | none => varRefsFuel fuel cs
    else varRefsFuel fuel cs

/-- The names that a text refers to, in order. -/
def varRefs (s : String) : List String := varRefsFuel s.toList.length s.toList

/-- The opening double brace. -/
def openMark : List Char := ['{', '{']

/-- The closing double brace. -/
def closeMark : List Char := ['}', '}']

/-- Does a text hold anything that may be replaced? -/
def hasTemplate (s : String) : Bool :=
  s.toList.contains '$' || Text.occurs openMark s.toList

/-- Replace what stands before, in and behind each region in double braces; `source` is the whole
text. -/
def expandFuel (env : Env) (source : String) : Nat → List Char → TextM (List Char)
  | 0, cs => return substituteChars env.var? cs
  | fuel + 1, cs =>
    match Text.breakOn openMark cs with
    | none => return substituteChars env.var? cs
    | some (before, after) =>
      match Text.breakOn closeMark after with
      | none => throw ⟨.openTemplate, source⟩
      | some (inner, rest) => do
        let v ← eval env (String.ofList (Text.trimChars inner))
        let out ← expandFuel env source fuel rest
        return substituteChars env.var? before ++ v.render.toList ++ out

/-- Evaluate every region in double braces and substitute variables around them. -/
def expand (env : Env) (s : String) : TextM String :=
  if hasTemplate s then do
    let out ← expandFuel env s s.toList.length s.toList
    return String.ofList out
  else return s

end DiagramMarkup.Expr
