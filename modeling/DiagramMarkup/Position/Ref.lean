import DiagramMarkup.Document.Error
import DiagramMarkup.Geometry.Anchor
import DiagramMarkup.Geometry.Numbers

/-!
# Position values

The value of an attribute that places an element:

* `x y`, plain coordinates;
* `#id@loc dx dy`, an anchor of another element and an offset, where `^` in place of `#id` means the
  element before;
* `#id|h gap`, beside another element, where `h`, `H`, `v` and `V` mean right of it, left of it, below it
  and above it.
-/

namespace DiagramMarkup.Position

/-- The side of another element on which an element is placed. -/
inductive Side where
  | right
  | left
  | below
  | above
deriving Repr, DecidableEq

/-- The side that a letter names. -/
def Side.ofLetter? : Char → Option Side
  | 'h' => some .right
  | 'H' => some .left
  | 'v' => some .below
  | 'V' => some .above
  | _ => none

/-- The letter of a side. -/
def Side.letter : Side → Char
  | .right => 'h'
  | .left => 'H'
  | .below => 'v'
  | .above => 'V'

/-- Where on the target the value points. -/
inductive Spot (α : Type) where
  /-- The location that the attribute implies. -/
  | implied
  /-- An anchor that the value names. -/
  | anchor (a : Anchor α)
  /-- Beside the target. -/
  | beside (s : Side)
deriving Repr

/-- Is the spot left to the attribute? -/
def Spot.isImplied {α : Type} : Spot α → Bool
  | .implied => true
  | _ => false

/-- A position value: the target, if there is one, a spot on it and trailing arguments. -/
structure Ref (α : Type) where
  target : Option String
  spot : Spot α
  args : List String
deriving Repr

/-- Finds the box of a reference. One that is not known yet is a deferral. -/
abbrev Referrer (α : Type) := String → Except Failure (Box α)

/-- Characters of an identifier in a position value. -/
def isIdChar (c : Char) : Bool :=
  c == '_' || c == '-' || c == '.' || ('a' ≤ c && c ≤ 'z') || ('A' ≤ c && c ≤ 'Z') ||
    ('0' ≤ c && c ≤ '9')

/-- What ends an anchor: a plain blank, a tab or a line end. -/
def isGap (c : Char) : Bool := c == ' ' || c == '\t' || c == '\n' || c == '\r'

/-- Does a text start with a reference? -/
def isRef (s : String) : Bool :=
  match Text.trimStart s.toList with
  | '#' :: _ | '^' :: _ => true
  | _ => false

namespace Ref

variable {α : Type} [Scalar α]

/-- The target at the start of the text, and the rest. -/
def splitTarget (s : String) : Except Fault (Option String × List Char) :=
  match s.toList with
  | '^' :: rest => .ok (some "^", rest)
  | '#' :: rest =>
    let name := rest.takeWhile isIdChar
    if name.isEmpty then .error (.missingId s)
    else .ok (some (String.ofList ('#' :: name)), rest.dropWhile isIdChar)
  | cs => .ok (none, cs)

/-- The spot that follows a target, and the rest. -/
def splitSpot (s : String) (cs : List Char) : Except Fault (Spot α × List Char) :=
  match cs with
  | [] => .ok (.implied, [])
  | '@' :: rest =>
    match Anchor.parse (String.ofList (rest.takeWhile (!isGap ·))) with
    | .ok a => .ok (.anchor a, rest.dropWhile (!isGap ·))
    | .error f => .error (.within s f)
  | c :: rest =>
    if c == '|' || c == ':' then
      match rest with
      | d :: tail =>
        match Side.ofLetter? d with
        | some side =>
          if (tail.head?.map isGap).getD true then .ok (.beside side, tail)
          else .error (.direction s)
        | none => .error (.direction s)
      | [] => .error (.direction s)
    else if isGap c then .ok (.implied, c :: rest)
    else .error (.afterReference c s)

/-- The spot behind what the text starts with; without a target there is none to name. -/
def spotOf (s : String) (target : Option String) (cs : List Char) : Except Fault (Spot α × List Char) :=
  if target.isSome then splitSpot s cs else .ok (.implied, cs)

/-- Read a position value. -/
def parse (s : String) : Except Fault (Ref α) := do
  let s := Text.trim s
  let (target, rest) ← splitTarget s
  let (spot, rest) ← spotOf s target rest
  let args := Numbers.split (String.ofList rest)
  match spot, args with
  | .beside _, _ :: _ :: _ => throw (.manyGaps s)
  | _, _ => return ⟨target, spot, args⟩

/-- The trailing arguments as numbers. -/
def numbers (r : Ref α) : Except Fault (List α) :=
  r.args.mapM fun a =>
    match Scalar.read? a with
    | some v => .ok v
    | none => .error (.plainNumber a)

/-- The trailing offset; what is missing is zero. -/
def offset (r : Ref α) : Except Fault (Point α) := do
  match ← r.numbers with
  | [] => return ⟨Scalar.zero, Scalar.zero⟩
  | [dx] => return ⟨dx, Scalar.zero⟩
  | [dx, dy] => return ⟨dx, dy⟩
  | ns => throw (.manyOffsets ns.length)

/-- The trailing arguments as a pair of coordinates. -/
def pair (r : Ref α) : Except Fault (Point α) := Numbers.parsePair (" ".intercalate r.args)

/-- The point on a box: the anchor, or the implied location. -/
def pointOn (r : Ref α) (implied : Loc) (b : Box α) : Point α :=
  match r.spot with
  | .anchor a => a.point b
  | _ => b.locate implied

end Ref

/-- Read `5` as an absolute amount and `25%` as a share. -/
def parseDelta {α : Type} [Scalar α] (s : String) : Except Fault (Length α) :=
  Length.parse (Text.trim s)

end DiagramMarkup.Position
