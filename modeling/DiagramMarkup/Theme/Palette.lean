import DiagramMarkup.Document.Options

/-!
# Palettes

The colours and widths of a theme, and the rules that are written when the document uses what triggers them.
-/

namespace DiagramMarkup.Theme

/-- The colours and widths of a theme. -/
structure Palette where
  stroke : String
  fill : String
  text : String
  background : String
  width : Float
  fillOpacity : String := ""

/-- The palette of a theme. -/
def palette : Theme → Palette
  | .light =>
    { stroke := "#333", fill := "#f8f8f8", text := "#222", background := "white", width := 0.5 }
  | .dark => { stroke := "#ddd", fill := "#222", text := "#eee", background := "#111", width := 0.5 }
  | .bold => { stroke := "black", fill := "white", text := "black", background := "none", width := 1 }
  | .fine => { stroke := "black", fill := "white", text := "black", background := "none", width := 0.2 }
  | .glass =>
    { stroke := "#246", fill := "#e0f0ff", text := "#024", background := "none", width := 0.5,
      fillOpacity := "0.7" }
  | .plain | .other _ =>
    { stroke := "black", fill := "white", text := "black", background := "none", width := 0.5 }

/-- The colours with classes of their own. -/
def colors : List String :=
  ["black", "white", "grey", "gray", "silver", "red", "maroon", "orange", "yellow", "gold", "olive",
    "lime", "green", "teal", "cyan", "aqua", "blue", "navy", "purple", "magenta", "pink", "brown"]

/-- A rule that is written when its trigger is used: an element name, or a class with a point before it. -/
structure AutoRule where
  trigger : String
  selector : String
  decls : List (String × String)

/-- The rules of elements. -/
def elementRules (p : Palette) (fontSize : Float) (fontFamily : String) : List AutoRule :=
  let num := Number.fixedText
  let closed := [("stroke", p.stroke), ("stroke-width", num p.width), ("fill", p.fill)] ++
    if p.fillOpacity == "" then [] else [("fill-opacity", p.fillOpacity)]
  let line := [("stroke", p.stroke), ("stroke-width", num p.width), ("fill", "none")]
  let named := fun (name : String) (decls : List (String × String)) => AutoRule.mk name name decls
  (["rect", "circle", "ellipse", "polygon"].map fun n => named n closed) ++
    (["line", "polyline", "path"].map fun n => named n line) ++
    [named "text" [("fill", p.text), ("stroke", "none"), ("font-family", fontFamily),
      ("font-size", num fontSize)]]

/-- The rules of classes. -/
def classRules (p : Palette) (fontSize : Float) : List AutoRule :=
  let num := Number.fixedText
  let text := fun (cls : String) (decls : List (String × String)) =>
    AutoRule.mk ("." ++ cls) ("text." ++ cls) decls
  let any := fun (cls : String) (decls : List (String × String)) =>
    AutoRule.mk ("." ++ cls) ("." ++ cls) decls
  [text "d-text" [("text-anchor", "middle"), ("dominant-baseline", "central")],
    text "d-text-top" [("dominant-baseline", "text-before-edge")],
    text "d-text-bottom" [("dominant-baseline", "text-after-edge")],
    text "d-text-left" [("text-anchor", "start")],
    text "d-text-right" [("text-anchor", "end")],
    any "d-text-small" [("font-size", num (fontSize * 2 / 3))],
    any "d-text-large" [("font-size", num (fontSize * 1.5))],
    any "d-text-mono" [("font-family", "monospace")],
    any "d-bold" [("font-weight", "bold")],
    any "d-italic" [("font-style", "italic")],
    any "d-thin" [("stroke-width", num (p.width / 2))],
    any "d-thick" [("stroke-width", num (p.width * 2))],
    any "d-dash" [("stroke-dasharray", num (p.width * 4) ++ " " ++ num (p.width * 2))],
    any "d-dot" [("stroke-dasharray", num p.width ++ " " ++ num (p.width * 2))],
    any "d-nofill" [("fill", "none")],
    any "d-nostroke" [("stroke", "none")],
    any "d-hidden" [("visibility", "hidden")],
    any "d-arrow" [("marker-end", "url(#d-arrow)")],
    any "d-biarrow" [("marker-start", "url(#d-arrow)"), ("marker-end", "url(#d-arrow)")],
    ⟨"#d-arrow", ".d-arrow-head", [("fill", p.stroke), ("stroke", "none")]⟩]

/-- The rules of colour classes. -/
def colorRules : List AutoRule :=
  colors.flatMap fun c =>
    [⟨".d-" ++ c, ".d-" ++ c, [("stroke", c)]⟩,
      ⟨".d-fill-" ++ c, ".d-fill-" ++ c, [("fill", c)]⟩,
      ⟨".d-text-" ++ c, "text.d-text-" ++ c, [("fill", c)]⟩]

/-- All automatic rules. -/
def autoRules (p : Palette) (fontSize : Float) (fontFamily : String) : List AutoRule :=
  elementRules p fontSize fontFamily ++ classRules p fontSize ++ colorRules

end DiagramMarkup.Theme
