import DiagramMarkup.Number.Scalar

/-!
# Sizes of previews

How many pixels the preview of a drawing has. The size of the view is used as it is, scaled to one target dimension,
or fitted into two, always keeping the aspect ratio; neither dimension passes a ceiling.
-/

namespace DiagramMarkup.Raster

open Scalar

/-- A size in pixels. -/
structure Size where
  width : Int
  height : Int
deriving Repr, DecidableEq

/-- The size of a view that states none. -/
def defaultSize : Int := 1024

/-- The ceiling of either dimension. -/
def ceiling : Int := 8192

variable {α : Type} [Scalar α]

/-- The nearest whole number, a half away from zero. -/
def rounded (x : α) : Int := toInt (round x)

/-- The whole pixels of one dimension of a view. -/
def natural (x : α) : Int :=
  let n := toInt (ceil x)
  if n ≤ 0 then defaultSize else n

variable (α) in
/-- The size of a view brought to a target; a dimension that is not positive is not asked for. -/
def scaled (view target : Size) : Size :=
  let w : α := ofInt view.width
  let h : α := ofInt view.height
  let tw : α := ofInt target.width
  let th : α := ofInt target.height
  if target.width ≤ 0 && target.height ≤ 0 then view
  else if target.height ≤ 0 then ⟨target.width, rounded (tw * h / w)⟩
  else if target.width ≤ 0 then ⟨rounded (th * w / h), target.height⟩
  else
    let s := least (tw / w) (th / h)
    ⟨rounded (w * s), rounded (h * s)⟩

/-- At least one pixel in both dimensions. -/
def Size.positive (s : Size) : Size := ⟨max s.width 1, max s.height 1⟩

variable (α) in
/-- A size brought under the ceiling. -/
def Size.capped (s : Size) : Size :=
  if ceiling < s.width || ceiling < s.height then
    let w : α := ofInt s.width
    let h : α := ofInt s.height
    let top : α := ofInt ceiling
    let f := least (top / w) (top / h)
    Size.positive ⟨rounded (w * f), rounded (h * f)⟩
  else s

/-- The size of the preview of a view. -/
def fit (width height : α) (target : Size) : Size :=
  (scaled α ⟨natural width, natural height⟩ target).positive.capped α

end DiagramMarkup.Raster
