import DiagramMarkup.Fault
import DiagramMarkup.Geometry.Box
import DiagramMarkup.Text.Split

/-!
# Path data

The `d` attribute of a path: command letters and numbers, with groups `r N [ … ]` that stand for `N`
copies of their content. `Path.expandRepeats` writes the copies out, and `Path.box` finds the extent of
what is drawn: corner points, control points of curves, and sampled points of arcs.
-/

namespace DiagramMarkup.Path

open Scalar

/-- A command letter or a number. -/
inductive Token (α : Type) where
  | command (c : Char)
  | number (v : α)
deriving Repr

/-- Is the token a command? -/
def Token.isCommand {α : Type} : Token α → Bool
  | .command _ => true
  | .number _ => false

/-! ## Reading -/

/-- What separates tokens. -/
def isSeparator (c : Char) : Bool :=
  c == ' ' || c == ',' || c == '\t' || c == '\n' || c == '\r'

/-- The letters and brackets of path data. -/
def isCommandChar (c : Char) : Bool := "MmLlHhVvCcSsQqTtAaZzr[]".toList.contains c

/-- Digits with at most one point among them. -/
def spanMantissa : Bool → List Char → List Char × List Char
  | _, [] => ([], [])
  | dot, c :: cs =>
    if Number.isDigit c then
      let (m, rest) := spanMantissa dot cs
      (c :: m, rest)
    else if c == '.' && !dot then
      let (m, rest) := spanMantissa true cs
      (c :: m, rest)
    else ([], c :: cs)

/-- A sign, if there is one. -/
def spanSign : List Char → List Char × List Char
  | '-' :: cs => (['-'], cs)
  | '+' :: cs => (['+'], cs)
  | cs => ([], cs)

/-- An exponent; without digits there is none. -/
def spanExponent : List Char → List Char × List Char
  | e :: cs =>
    let (sign, rest) := spanSign cs
    let digits := rest.takeWhile Number.isDigit
    if (e == 'e' || e == 'E') && !digits.isEmpty then
      (e :: sign ++ digits, rest.dropWhile Number.isDigit)
    else ([], e :: cs)
  | [] => ([], [])

/-- A number at the start of the text. Numbers may run together as in `1.5.5` or `3-2`. -/
def spanNumber (cs : List Char) : Option (List Char × List Char) :=
  let (sign, rest) := spanSign cs
  let (mantissa, rest) := spanMantissa false rest
  if mantissa.any Number.isDigit then
    let (ex, rest) := spanExponent rest
    some (sign ++ mantissa ++ ex, rest)
  else none

variable {α : Type} [Scalar α]

/-- Read the tokens of `d` from the byte `pos` on; each step takes at least one character. -/
def scan (d : String) : Nat → Nat → List Char → Except Fault (List (Token α))
  | 0, _, _ => .ok []
  | _ + 1, _, [] => .ok []
  | fuel + 1, pos, c :: cs =>
    if isSeparator c then scan d fuel (pos + 1) cs
    else if isCommandChar c then (scan d fuel (pos + 1) cs).map (.command c :: ·)
    else if c == '-' || c == '+' || c == '.' || Number.isDigit c then
      match spanNumber (c :: cs) with
      | none => .error (.pathOffset pos d)
      | some (text, rest) =>
        match (read? (String.ofList text) : Option α) with
        | none => .error (.pathNumber (String.ofList text))
        | some v => (scan d fuel (pos + text.length) rest).map (.number v :: ·)
    else .error (.pathChar c pos)

/-- The tokens of path data. -/
def tokenize (d : String) : Except Fault (List (Token α)) := scan d d.length 0 d.toList

/-! ## Repeat groups -/

/-- A group whose end has not been reached: its count, and what stands before it, last first. -/
structure OpenGroup (α : Type) where
  count : Nat
  before : List (Token α)

/-- The count of a group, a whole number that is not negative. -/
def repeatCount (v : α) : Except Fault Nat :=
  let n := toInt v
  if n < 0 || ofInt n != v then .error (.repeatCount (general v)) else .ok n.toNat

/-- Charge `n` copies of `commands` commands against the limit, on top of what is `used`. A limit of
zero or less does not bind. -/
def charge (limit : Int) (used commands : Int) (n : Nat) : Except Fault Int :=
  let total := used + n * commands
  if 0 < limit && limit < total then
    .error (.repeatLimit (used + ((limit - used) / commands + 1) * commands) limit)
  else .ok total

/-- The tokens of `n` copies. -/
def copies (n : Nat) (body : List (Token α)) : List (Token α) :=
  if body.isEmpty then [] else (List.replicate n body).flatten

/-- Write out all groups. `out` is what has been written at the current level, last first. -/
def expandTokens (d : String) (limit : Int) : List (Token α) → List (OpenGroup α) →
    (used : Int) → (out : List (Token α)) → Except Fault (List (Token α))
  | [], [], _, out => .ok out.reverse
  | [], _ :: _, _, _ => .error .openRepeat
  | .number v :: ts, stack, used, out => expandTokens d limit ts stack used (.number v :: out)
  | .command c :: ts, stack, used, out =>
    if c == ']' then
      match stack with
      | [] => .error (.unbalanced d)
      | g :: stack =>
        match charge limit used (out.countP Token.isCommand) g.count with
        | .error e => .error e
        | .ok used => expandTokens d limit ts stack used (copies g.count out ++ g.before)
    else if c == 'r' then
      match ts with
      | .number v :: .command b :: rest =>
        if b == '[' then
          match repeatCount v with
          | .error e => .error e
          | .ok n => expandTokens d limit rest (⟨n, out⟩ :: stack) used []
        else .error .repeatForm
      | _ => .error .repeatForm
    else if c == '[' then .error .loneBracket
    else expandTokens d limit ts stack used (.command c :: out)

/-- One token as written. -/
def Token.text : Token α → String
  | .command c => c.toString
  | .number v => fixed v

/-- Path data from tokens. -/
def text (ts : List (Token α)) : String := " ".intercalate (ts.map Token.text)

end DiagramMarkup.Path

namespace DiagramMarkup.Path

variable (α : Type) [Scalar α]

/-- Path data with all repeat groups written out. Data without groups stays as it is. -/
def expandRepeats (d : String) (limit : Int) : Except Fault String :=
  if !Text.hasAny "r[]" d then .ok d
  else do
    let ts : List (Token α) ← tokenize d
    return text (← expandTokens d limit ts [] 0 [])

end DiagramMarkup.Path
