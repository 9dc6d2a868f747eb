/-!
# Order indices

The place of an element in the document: the positions to follow from the root. Sibling `i` of a parent
at `o` stands at `o.sub i`, and the output of iteration `k` of a loop at `o` below `o.sub k`.
-/

namespace DiagramMarkup

/-- A path of positions from the root. -/
structure Order where
  indices : List Int
deriving Repr, DecidableEq, Inhabited

namespace Order

/-- The index of the `i`th child. -/
def sub (o : Order) (i : Int) : Order := ⟨o.indices ++ [i]⟩

/-- Lexicographic comparison of positions; a shorter path comes before its continuations. -/
def compareIndices : List Int → List Int → Ordering
  | [], [] => .eq
  | [], _ :: _ => .lt
  | _ :: _, [] => .gt
  | a :: as, b :: bs =>
    if a < b then .lt else if b < a then .gt else compareIndices as bs

/-- Document order. -/
def compare (o p : Order) : Ordering := compareIndices o.indices p.indices

/-- The text form, positions joined by points. -/
def key (o : Order) : String := ".".intercalate (o.indices.map fun i => toString i)

end Order

end DiagramMarkup
