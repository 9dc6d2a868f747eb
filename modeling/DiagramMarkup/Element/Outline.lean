import DiagramMarkup.Element.Node

/-!
# Outlines

A document as indented lines, one for each element, attribute and piece of content. White space alone is
left out.
-/

namespace DiagramMarkup.Node

/-- A value in an outline; the empty text stays empty. -/
def outlineValue (s : String) : String := if s == "" then "" else Text.quote s

/-- A line at a depth. -/
def outlineLine (depth : Nat) (s : String) : String :=
  String.join (List.replicate depth "  ") ++ s ++ "\n"

mutual

/-- The outline of a tree. -/
def outline (depth : Nat) : Node → String
  | .element el cs =>
    outlineLine depth el.name ++
      String.join (el.outputAttrs.map fun p =>
        outlineLine (depth + 1) ("@" ++ p.1 ++ ": " ++ outlineValue p.2)) ++
      outlineAll (depth + 1) cs
  | .leaf l => if l.isBlank then "" else outlineLine depth (l.kind ++ ": " ++ outlineValue l.chars)

/-- The outline of several trees. -/
def outlineAll (depth : Nat) : List Node → String
  | [] => ""
  | n :: ns => outline depth n ++ outlineAll depth ns

end

end DiagramMarkup.Node

namespace DiagramMarkup

/-- The outline of a stream; one that does not nest is reported in one line. -/
def Event.outline (evs : List Event) : String :=
  match Node.ofEvents evs with
  | .ok ns => Node.outlineAll 0 ns
  | .error f => Node.outlineLine 0 ("unbalanced stream: " ++ f.message)

end DiagramMarkup
