import DiagramMarkup.Compile.Siblings

/-!
# Instances of templates

An instance gives its attributes to the template: as variables for those that the template refers to, and as
attributes of the template's element for the others. Position, rotation and transform compose with the template
instead of replacing its values.
-/

namespace DiagramMarkup.Reuse

open Compile

/-- What an instance adds to the place of its template. -/
structure Placement where
  x : Option Float := none
  y : Option Float := none
  rotate : Float := 0
  transform : String := ""

/-- The variables that a template refers to. -/
def varsUsed (n : Node) : List String :=
  n.preorder.flatMap fun
    | .element el _ => (el.attrs.entries.map (·.2) ++ el.classes).flatMap Expr.varRefs
    | .leaf l => Expr.varRefs l.chars

/-- Expand and read the number in an attribute. -/
def number (el : Element) (attr v : String) : Compile Float := do
  readNumber el attr (← expand el attr v)

/-- A list of declarations behind another. -/
def joinStyle (old new : String) : String :=
  let old := Text.trim old
  if old == "" then new else old ++ "; " ++ new

/-- Hand one attribute of the instance to the template's element or to the placement. -/
def mergeAttr (inst : Element) (used : List String) (s : Element × Placement) (a : String × String) :
    Compile (Element × Placement) := do
  let (t, p) := s
  match a.1 with
  | "id" => return (t, p)
  | "transform" => return (t, { p with transform := a.2 })
  | "rotate" => return (t, { p with rotate := p.rotate + (← number inst a.1 a.2) })
  | "style" => return (t.set "style" (joinStyle (t.attrs.value "style") a.2), p)
  | "x" => return (t, { p with x := some (← number inst a.1 a.2) })
  | "y" => return (t, { p with y := some (← number inst a.1 a.2) })
  | _ => return (if used.contains a.1 then t else t.set a.1 a.2, p)

/-- The rotation of a template, zero when it has none. -/
def ownTurn (t : Element) : Option String → Compile Float
  | none => pure 0
  | some v => number t "rotate" v

/-- Copy the attributes of an instance onto the element of a template. The identifier of the instance takes the place
of the template's; classes and styles add up. -/
def merge (inst t : Element) (used : List String) : Compile (Element × Placement) := do
  let own := t.attrs.entries.filter (·.1 != "id")
  let attrs := Attrs.ofList (if inst.id == "" then own else ("id", inst.id) :: own)
  let t := { t with attrs := attrs.erase "rotate" }
  let turn ← ownTurn t (attrs.get? "rotate")
  let (t, p) ← inst.attrs.entries.foldlM (mergeAttr inst used) (t, { rotate := turn })
  return (t.addClasses inst.classes, p)

/-- Is an element with this name placed by `x` and `y`? -/
def placedByCorner (name : String) : Bool :=
  match Shape.ofName? name with
  | some .box | some .point => true
  | _ => name == "tbox" || name == "person" || name == "pipeline"

/-- Store a coordinate that is given. -/
def setGiven (t : Element) (attr : String) (v : Option Float) : Element :=
  match v with
  | some v => t.setNumber attr v
  | none => t

/-- Add a given amount to an offset. -/
def shift (t : Element) (attr : String) (v : Option Float) : Compile Element := do
  match v with
  | none => return t
  | some v =>
    match t.get? attr with
    | none => return t.setNumber attr v
    | some old => return t.setNumber attr (v + (← readNumber t attr old))

/-- Place the element of a shape template: `x` and `y` replace the corner or the centre, and move everything
else. -/
def Placement.applyShape (p : Placement) (t : Element) : Compile Element :=
  let t := if p.transform == "" then t else t.prependTransform p.transform
  let t := if p.rotate == 0 then t else t.setNumber "rotate" p.rotate
  if placedByCorner t.name then pure (setGiven (setGiven t "x" p.x) "y" p.y)
  else if t.name == "circle" || t.name == "ellipse" then
    pure (setGiven (setGiven t "cx" p.x) "cy" p.y)
  else do
    let t ← shift t "dx" p.x
    shift t "dy" p.y

/-- The steps that place a group: transform, translation, rotation. -/
def Placement.steps (p : Placement) (box : Option (Box Float)) : List String :=
  let x := p.x.getD 0
  let y := p.y.getD 0
  (if p.transform == "" then [] else [p.transform]) ++
  (if x == 0 && y == 0 then []
    else ["translate(" ++ Number.fixedText x ++ ", " ++ Number.fixedText y ++ ")"]) ++
  (if p.rotate == 0 then [] else [rotated.rotation p.rotate box])

/-- Place a group that is drawn already: its first event opens it and takes the steps, and a moved group is recorded
with its new box. -/
def Placement.applyGroup (p : Placement) (d : Drawing) : Compile Drawing := do
  let steps := p.steps d.box
  let place := fun (el : Element) =>
    if steps.isEmpty then el else el.prependTransform (" ".intercalate steps)
  let x := p.x.getD 0
  let y := p.y.getD 0
  let box := d.box.map fun b => if x == 0 && y == 0 then b else b.translate x y
  match d.events with
  | [] => return { d with box := box }
  | e :: rest =>
    let e := e.mapElement place
    if box.isSome && !(x == 0 && y == 0) then e.element?.forM (register · box)
    return ⟨e :: rest, box⟩

/-- The identifier that an instance refers to, and the instance without the reference. -/
def target (inst : Element) : Option String × Element :=
  let (href, inst) := match inst.get? "href" with
    | some v => (some v, inst.erase "href")
    | none => (inst.get? "xlink:href", inst.erase "xlink:href")
  match (href.map Text.trim).getD "" |>.toList with
  | '#' :: c :: id => (some (String.ofList (c :: id)), inst)
  | _ => (none, inst)

/-- Draw an instance from a copy of its template. `draw` draws an element with its content, and `group` an element as
a group. -/
def draw (draw group : Element → List Node → Order → Compile Drawing) (el : Element) (order : Order) :
    Compile Drawing := do
  let inst ← prepare el order
  let (id, inst) := target inst
  setCurrent inst
  match id with
  | none => raise .parse inst "" .reuseTarget
  | some id =>
    match ((← get).template? id).map Node.copy with
    | some (.element t children) =>
      withDepth inst <| withFrame inst.attrs.entries do
        let (t', p) ← merge inst (rename t) (varsUsed (.element t children))
        if isGroup t then p.applyGroup (← group t' children order)
        else draw (← p.applyShape t') children order
    | _ => throw (.waits (some inst) ("#" ++ id))
where
  /-- Is the template drawn as a group? -/
  isGroup (t : Element) : Bool := t.name == "g" || t.name == "symbol"
  /-- The element that a template becomes. -/
  rename (t : Element) : Element := if isGroup t then { t with name := "g" } else t

end DiagramMarkup.Reuse
