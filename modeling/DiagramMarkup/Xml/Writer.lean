import DiagramMarkup.Element.Node
import DiagramMarkup.Xml.Name
import DiagramMarkup.Text.Bytes

/-!
# Writing XML

A stream of events becomes a document text. Characters that no document may hold are replaced.
-/

namespace DiagramMarkup.Xml

/-- A character of character data. -/
def escapeText (c : Char) : List Char :=
  match c with
  | '&' => "&amp;".toList
  | '<' => "&lt;".toList
  | '>' => "&gt;".toList
  | '\r' => "&#xD;".toList
  | c => [if isChar c then c else Text.replacement]

/-- A character of an attribute value. -/
def escapeValue (c : Char) : List Char :=
  match c with
  | '&' => "&amp;".toList
  | '<' => "&lt;".toList
  | '"' => "&quot;".toList
  | '\t' => "&#x9;".toList
  | '\n' => "&#xA;".toList
  | '\r' => "&#xD;".toList
  | c => [if isChar c then c else Text.replacement]

/-- A text with each character written by `f`. -/
def escapeWith (f : Char → List Char) (s : String) : String :=
  String.ofList (s.toList.flatMap f)

/-- A name as written: a colon at its start has no prefix to separate and is dropped. -/
def writtenName (name : String) : String :=
  match name.toList with
  | ':' :: rest => String.ofList rest
  | _ => name

/-- The attributes of a tag. -/
def writeAttrs (pairs : List (String × String)) : String :=
  String.join ((Attrs.ofList (pairs.map fun p => (writtenName p.1, p.2))).entries.map fun p =>
    " " ++ p.1 ++ "=\"" ++ escapeWith escapeValue p.2 ++ "\"")

/-- A tag up to its end. -/
def openTag (el : Element) : String := "<" ++ writtenName el.name ++ writeAttrs el.outputAttrs

/-- Content that is not an element. -/
def writeLeaf : Leaf → String
  | .text s => escapeWith escapeText s
  | .cdata s => "<![CDATA[" ++ s ++ "]]>"
  | .comment s => "<!--" ++ s ++ "-->"
  | .procInst target s => "<?" ++ target ++ (if s == "" then "" else " " ++ s) ++ "?>"

/-- The pieces of a document. `opened` are the names still open, and `pending` tells that the innermost tag
lacks its end, because content may follow or not. -/
def pieces : (opened : List String) → (pending : Bool) → List Event → Except TagFault (List String)
  | [], _, [] => .ok []
  | name :: _, _, [] => .error (.unclosed name)
  | opened, pending, ev :: evs =>
    let fill := if pending then ">" else ""
    match ev with
    | .start el => (pieces (writtenName el.name :: opened) true evs).map ([fill, openTag el] ++ ·)
    | .empty el => (pieces opened false evs).map ([fill, openTag el, "/>"] ++ ·)
    | .leaf l => (pieces opened false evs).map ([fill, writeLeaf l] ++ ·)
    | .close name =>
      match opened with
      | [] => .error (.unexpected name)
      | top :: rest =>
        if top == name then
          (pieces rest false evs).map ((if pending then "/>" else "</" ++ name ++ ">") :: ·)
        else .error (.unexpected name)

/-- The document text of a stream. -/
def write (evs : List Event) : Except TagFault String := (pieces [] false evs).map String.join

end DiagramMarkup.Xml
