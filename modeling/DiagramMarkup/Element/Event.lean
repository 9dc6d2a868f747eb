import DiagramMarkup.Element.Basic

/-!
# Events

A document as a flat stream: tags that open, close or do both, and the character data, comments and
processing instructions between them.
-/

namespace DiagramMarkup

/-- Content that is not an element. -/
inductive Leaf where
  | text (s : String)
  | cdata (s : String)
  | comment (s : String)
  | procInst (target s : String)
deriving DecidableEq, Inhabited

/-- The word for a kind of content. -/
def Leaf.kind : Leaf → String
  | .text _ => "text"
  | .cdata _ => "cdata"
  | .comment _ => "comment"
  | .procInst .. => "procinst"

/-- The characters of the content. -/
def Leaf.chars : Leaf → String
  | .text s | .cdata s | .comment s | .procInst _ s => s

/-- Is this text of white space only? -/
def Leaf.isBlank : Leaf → Bool
  | .text s => Text.trim s == ""
  | _ => false

/-- One item of the stream. -/
inductive Event where
  | start (el : Element)
  | empty (el : Element)
  | close (name : String)
  | leaf (l : Leaf)
deriving DecidableEq, Inhabited

namespace Event

/-- A text event. -/
def text (s : String) : Event := .leaf (.text s)

/-- The element that a tag opens. -/
def element? : Event → Option Element
  | .start el | .empty el => some el
  | .close _ | .leaf _ => none

/-- Change the element that a tag opens. -/
def mapElement (f : Element → Element) : Event → Event
  | .start el => .start (f el)
  | .empty el => .empty (f el)
  | e => e

/-- Content between the tags of an element, or the element alone when there is none. -/
def wrap (el : Element) (content : List Event) : List Event :=
  if content.isEmpty then [.empty el] else .start el :: content ++ [.close el.name]

end Event

end DiagramMarkup
