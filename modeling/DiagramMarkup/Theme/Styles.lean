import DiagramMarkup.Css.Parser
import DiagramMarkup.Element.Node
import DiagramMarkup.Theme.Palette

/-!
# Automatic styles

The style sheet and definitions of a document, made from the element names and classes it uses, and the sheet of
its author. Styles are written as a sheet or put onto the elements.
-/

namespace DiagramMarkup

/-- The styles of one document. -/
structure Styles where
  auto : Css.Sheet
  user : Option Css.Sheet
  mode : StyleMode
  defs : List Node

namespace Styles

/-- The arrow head that lines refer to. -/
def arrowMarker (p : Theme.Palette) (mode : StyleMode) : Node :=
  let head := Element.ofAttrs "polygon" [("class", "d-arrow-head"), ("points", "0 1, 10 5, 0 9")]
  let head := if mode == .inline then (head.set "fill" p.stroke).set "stroke" "none" else head
  .element (Element.ofAttrs "marker" [("id", "d-arrow"), ("viewBox", "0 0 10 10"), ("refX", "9"),
    ("refY", "5"), ("markerWidth", "5"), ("markerHeight", "5"), ("orient", "auto-start-reverse")])
    [.element head []]

/-- The background to draw, if any. -/
def background? (o : Options) (p : Theme.Palette) : Option String :=
  let bg := if o.background == "" || o.background == "default" then p.background else o.background
  if bg == "none" then none else some bg

/-- Automatic rules and definitions for what a document uses. -/
def automatic (o : Options) (mode : StyleMode) (names classes : List String) :
    Css.Sheet × List Node :=
  let p := o.theme.palette
  let used := names ++ classes.map ("." ++ ·)
  let arrows := used.contains ".d-arrow" || used.contains ".d-biarrow"
  let used := if arrows then "#d-arrow" :: used else used
  let sheet : Css.Sheet := match background? o p with
    | some bg => ({} : Css.Sheet).add "svg" [("background", bg)]
    | none => {}
  let rules := (Theme.autoRules p o.fontSize o.fontFamily).filter fun r => used.contains r.trigger
  (rules.foldl (fun (s : Css.Sheet) r => s.add r.selector r.decls) sheet,
    if arrows then [arrowMarker p mode] else [])

/-- The styles of a document; none when the author's sheet is malformed. -/
def build? (o : Options) (names classes : List String) : Option Styles :=
  let mode := if o.addAutoStyles then o.styleMode else .none
  let user : Option (Option Css.Sheet) :=
    if o.userStylesheet == "" then some none
    else
      match Css.Sheet.parse o.userStylesheet with
      | (s, true) => some (some s)
      | (_, false) => none
  match user with
  | none => none
  | some user =>
    if mode == .none then some ⟨{}, user, mode, []⟩
    else
      let (auto, defs) := automatic o mode names classes
      some ⟨auto, user, mode, defs⟩

/-- The sheet that is written into the document. -/
def written (s : Styles) : Css.Sheet :=
  let auto : Css.Sheet := if s.mode == .css then s.auto else {}
  match s.user with
  | some u => auto.append u
  | none => auto

/-- The elements to place at the start of the root. -/
def events (s : Styles) : List Event :=
  let sheet := s.written
  let style : Element := { name := "style" }
  (if sheet.items.isEmpty then []
    else [.start style, .text ("\n" ++ sheet.text), .close "style"]) ++
  (if s.defs.isEmpty then [] else (Node.element { name := "defs" } s.defs).events)

/-- Properties without an attribute of their own. -/
def styleOnly : List String := ["background", "background-color"]

/-- Put the automatic rules onto an element, in the mode that does so. Attributes already there stay. -/
def apply (s : Styles) (el : Element) : Element :=
  if s.mode != .inline then el
  else
    let props := Css.Sheet.sortNames (s.auto.inline el.name el.classes)
    let (style, plain) := props.partition fun p => styleOnly.contains p.1
    let el : Element :=
      { el with attrs := plain.foldl (fun (a : Attrs) p => a.setDefault p.1 p.2) el.attrs }
    if style.isEmpty then el
    else
      let joined := "; ".intercalate (style.map fun p => p.1 ++ ": " ++ p.2)
      let old := Text.trim (el.attrs.value "style")
      el.set "style" (if old == "" then joined else joined ++ "; " ++ old)

end Styles

end DiagramMarkup
