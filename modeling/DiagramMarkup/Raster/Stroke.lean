import DiagramMarkup.Number.Decimal
import DiagramMarkup.Number.Reader

/-!
# Stroke widths of previews

Every stroke width in the text of a drawing may be multiplied by a factor, wherever it stands: in an attribute or in
a style.
-/

namespace DiagramMarkup.Raster

/-- White space between the parts of a stroke width. -/
def isGap (c : Char) : Bool := c == '\t' || c == '\n' || c == '\x0c' || c == '\r' || c == ' '

/-- The word in front of a stroke width. -/
def strokeWord : List Char := "stroke-width".toList

/-- A stroke width at the start of a text: what stands before the number, the number, and the rest. -/
def strokeWidth? (cs : List Char) : Option (List Char × List Char × List Char) :=
  if !strokeWord.isPrefixOf cs then none
  else
    let rest := cs.drop strokeWord.length
    let gap := rest.takeWhile isGap
    match rest.dropWhile isGap with
    | [] => none
    | sign :: rest =>
      if sign != '=' && sign != ':' then none
      else
        let gap' := rest.takeWhile isGap
        let rest := rest.dropWhile isGap
        let (quote, rest) := match rest with
          | q :: tail => if q == '"' || q == '\'' then ([q], tail) else ([], rest)
          | [] => ([], [])
        let whole := rest.takeWhile Number.isDigit
        if whole.isEmpty then none
        else
          let (number, rest) := match rest.dropWhile Number.isDigit with
            | '.' :: tail =>
              let places := tail.takeWhile Number.isDigit
              if places.isEmpty then (whole, '.' :: tail)
              else (whole ++ '.' :: places, tail.dropWhile Number.isDigit)
            | tail => (whole, tail)
          some (strokeWord ++ gap ++ sign :: gap' ++ quote, number, rest)

/-- A number multiplied by a factor; one that is too large stays. -/
def scaleNumber (factor : Float) (number : List Char) : List Char :=
  match Number.readChars number with
  | .ok x => (Number.plainText (x * factor)).toList
  | .error _ => number

/-- Multiply the stroke widths of a text; each step takes at least one character off it. -/
def scaleStrokesFuel (factor : Float) : Nat → List Char → List Char
  | 0, cs => cs
  | _ + 1, [] => []
  | fuel + 1, c :: cs =>
    match strokeWidth? (c :: cs) with
    | some (before, number, rest) =>
      before ++ scaleNumber factor number ++ scaleStrokesFuel factor fuel rest
    | none => c :: scaleStrokesFuel factor fuel cs

/-- Multiply all stroke widths by a factor. A factor of one, or one that is not positive, changes nothing. -/
def scaleStrokes (factor : Float) (s : String) : String :=
  if factor ≤ 0 || factor == 1 then s
  else String.ofList (scaleStrokesFuel factor s.toList.length s.toList)

end DiagramMarkup.Raster
