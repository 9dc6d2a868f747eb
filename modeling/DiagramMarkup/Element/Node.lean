import DiagramMarkup.Element.Event

/-!
# Node trees

The other view of a document: elements with their content. `Node.ofEvents` nests a stream, and
`Node.events` flattens a tree again.
-/

namespace DiagramMarkup

/-- An element with its content, or a leaf. -/
inductive Node where
  | element (el : Element) (children : List Node)
  | leaf (l : Leaf)
deriving Inhabited

/-- Why a stream of tags does not nest. -/
inductive TagFault where
  | unexpected (name : String)
  | crossed (closing opened : String)
  | unclosed (name : String)
deriving Repr, DecidableEq

/-- The wording of a nesting fault. -/
def TagFault.message : TagFault → String
  | .unexpected name => "mismatched tag: unexpected </" ++ name ++ ">"
  | .crossed closing opened => "mismatched tag: </" ++ closing ++ "> closes <" ++ opened ++ ">"
  | .unclosed name => "mismatched tag: <" ++ name ++ "> is never closed"

namespace Node

/-- Is this white space only? -/
def isBlank : Node → Bool
  | .leaf l => l.isBlank
  | .element .. => false

/-- The element of a node. -/
def element? : Node → Option Element
  | .element el _ => some el
  | .leaf _ => none

/-- Does the node hold an element? -/
def isElement (n : Node) : Bool := n.element?.isSome

/-- The content of a node. -/
def children : Node → List Node
  | .element _ cs => cs
  | .leaf _ => []

/-- Nest a stream. `siblings` are the nodes already complete at the current level, last first, and
`stack` holds the open elements with their own earlier siblings. -/
def nest : List Event → (stack : List (Element × List Node)) → (siblings : List Node) →
    Except TagFault (List Node)
  | [], [], siblings => .ok siblings.reverse
  | [], (el, _) :: _, _ => .error (.unclosed el.name)
  | .start el :: evs, stack, siblings => nest evs ((el, siblings) :: stack) []
  | .empty el :: evs, stack, siblings => nest evs stack (.element el [] :: siblings)
  | .leaf l :: evs, stack, siblings => nest evs stack (.leaf l :: siblings)
  | .close name :: _, [], _ => .error (.unexpected name)
  | .close name :: evs, (el, before) :: stack, siblings =>
    if el.name == name then nest evs stack (.element el siblings.reverse :: before)
    else .error (.crossed name el.name)

/-- The trees of a stream. -/
def ofEvents (evs : List Event) : Except TagFault (List Node) := nest evs [] []

mutual

/-- A tree built anew, with elements of its own. -/
def copy : Node → Node
  | .leaf l => .leaf l
  | .element el cs => .element el.copy (copyAll cs)

/-- Several trees built anew. -/
def copyAll : List Node → List Node
  | [] => []
  | n :: ns => copy n :: copyAll ns

end

mutual

@[simp]
theorem copy_eq : ∀ n : Node, n.copy = n
  | .leaf _ => rfl
  | .element el cs => by rw [copy, el.copy_eq, copyAll_eq cs]

@[simp]
theorem copyAll_eq : ∀ ns : List Node, copyAll ns = ns
  | [] => rfl
  | n :: ns => by rw [copyAll, copy_eq n, copyAll_eq ns]

end

@[simp]
theorem map_copy (n : Option Node) : n.map copy = n := by cases n <;> simp

mutual

/-- The stream of a tree. An element without content is one empty tag. -/
def events : Node → List Event
  | .leaf l => [.leaf l]
  | .element el [] => [.empty el]
  | .element el (c :: cs) => .start el :: (events c ++ eventsAll cs) ++ [.close el.name]

/-- The stream of several trees. -/
def eventsAll : List Node → List Event
  | [] => []
  | n :: ns => events n ++ eventsAll ns

end

mutual

/-- All nodes of a tree, each before its content. -/
def preorder : Node → List Node
  | .leaf l => [.leaf l]
  | .element el cs => .element el cs :: preorderAll cs

/-- All nodes of several trees. -/
def preorderAll : List Node → List Node
  | [] => []
  | n :: ns => preorder n ++ preorderAll ns

end

mutual

/-- The number of nodes of a tree. -/
def size : Node → Nat
  | .leaf _ => 1
  | .element _ cs => sizeAll cs + 1

/-- The number of nodes of several trees. -/
def sizeAll : List Node → Nat
  | [] => 0
  | n :: ns => size n + sizeAll ns

end

/-- The nodes met on the way through a tree up to the first that satisfies `stop`. -/
def visit (stop : Node → Bool) (n : Node) : List Node :=
  let ns := n.preorder
  ns.take ((ns.takeWhile (!stop ·)).length + 1)

end Node

end DiagramMarkup
