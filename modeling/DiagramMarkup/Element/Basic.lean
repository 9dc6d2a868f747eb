import DiagramMarkup.Element.Attrs
import DiagramMarkup.Element.Order
import DiagramMarkup.Text.Quoted
import DiagramMarkup.Text.Split

/-!
# Elements

A markup element without its content. Classes are kept apart from the other attributes and come
together again as `class` in the output.
-/

namespace DiagramMarkup

/-- An element: its name, attributes, classes and place in the document. -/
structure Element where
  name : String
  attrs : Attrs := ∅
  classes : List String := []
  order : Order := ⟨[]⟩
deriving DecidableEq, Inhabited

namespace Element

/-- The value of an attribute. -/
def get? (el : Element) (name : String) : Option String := el.attrs.get? name

/-- Is the attribute present? -/
def has (el : Element) (name : String) : Bool := el.attrs.has name

/-- Give an attribute a value. -/
def set (el : Element) (name value : String) : Element :=
  { el with attrs := el.attrs.set name value }

/-- Remove an attribute. -/
def erase (el : Element) (name : String) : Element := { el with attrs := el.attrs.erase name }

/-- Remove several attributes. -/
def eraseAll (el : Element) (names : List String) : Element :=
  { el with attrs := el.attrs.eraseAll names }

/-- The identifier, empty when there is none. -/
def id (el : Element) : String := el.attrs.value "id"

/-- Does the element carry the class? -/
def hasClass (el : Element) (c : String) : Bool := el.classes.contains c

/-- Add a class, unless it is empty or there already. -/
def addClass (el : Element) (c : String) : Element :=
  if c == "" || el.hasClass c then el else { el with classes := el.classes ++ [c] }

/-- Add classes in turn. -/
def addClasses (el : Element) (cs : List String) : Element := cs.foldl addClass el

/-- An element from attributes as written; the words of `class` become classes. -/
def ofAttrs (name : String) (pairs : List (String × String)) : Element :=
  pairs.foldl
    (fun el p => if p.1 == "class" then el.addClasses (Text.words p.2) else el.set p.1 p.2)
    { name := name }

/-- An element with attributes of its own. -/
def copy (el : Element) : Element :=
  { name := el.name, attrs := el.attrs.copy, classes := el.classes, order := el.order }

@[simp]
theorem copy_eq (el : Element) : el.copy = el := by rw [copy, Attrs.copy_eq]

/-- The attributes to write. Classes come as `class`, behind `id` when that is the first attribute and
in front otherwise. -/
def outputAttrs (el : Element) : List (String × String) :=
  if el.classes.isEmpty then el.attrs.entries
  else
    let cls := ("class", " ".intercalate el.classes)
    match el.attrs.entries with
    | [] => [cls]
    | p :: rest => if p.1 == "id" then p :: cls :: rest else cls :: p :: rest

/-- The element as an opening tag, for messages. -/
def describe (el : Element) : String :=
  "<" ++ el.name ++
    String.join (el.outputAttrs.map fun p => " " ++ p.1 ++ "=" ++ Text.quote p.2) ++ ">"

end Element

end DiagramMarkup
