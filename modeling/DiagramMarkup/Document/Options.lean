import DiagramMarkup.Fault
import DiagramMarkup.Number.Decimal
import DiagramMarkup.Text.Blank

/-!
# Options

What the compilation of a document may be told: appearance, automatic styles and resource limits. A document can
change options on its way; every change is checked.
-/

namespace DiagramMarkup

/-- How automatic styles are written. -/
inductive StyleMode where
  /-- As a style sheet. -/
  | css
  /-- As attributes of the elements. -/
  | inline
  | none
  /-- A number that stands for no mode. -/
  | other (n : Int)
deriving Repr, DecidableEq, Inhabited

namespace StyleMode

/-- The modes with a name. -/
def named : List (String × StyleMode) := [("css", .css), ("inline", .inline), ("none", .none)]

/-- The number of a mode. -/
def index : StyleMode → Int
  | .css => 0
  | .inline => 1
  | .none => 2
  | .other n => n

/-- The mode with a number. -/
def ofIndex (n : Int) : StyleMode := ((named.map (·.2)).find? (·.index == n)).getD (.other n)

/-- Is this one of the modes with a name? -/
def isValid : StyleMode → Bool
  | .other _ => false
  | _ => true

/-- The name of a mode. -/
def name : StyleMode → String
  | .css => "css"
  | .inline => "inline"
  | .none => "none"
  | .other n => s!"AutoStyleMode({n})"

/-- What the modes are called together. -/
def typeName : String := "AutoStyleMode"

end StyleMode

/-- The colours and stroke widths of automatic styles. -/
inductive Theme where
  | plain
  | light
  | dark
  | bold
  | fine
  | glass
  /-- A number that stands for no theme. -/
  | other (n : Int)
deriving Repr, DecidableEq, Inhabited

namespace Theme

/-- The themes with a name. -/
def named : List (String × Theme) :=
  [("default", .plain), ("light", .light), ("dark", .dark), ("bold", .bold), ("fine", .fine),
    ("glass", .glass)]

/-- The number of a theme. -/
def index : Theme → Int
  | .plain => 0
  | .light => 1
  | .dark => 2
  | .bold => 3
  | .fine => 4
  | .glass => 5
  | .other n => n

/-- The theme with a number. -/
def ofIndex (n : Int) : Theme := ((named.map (·.2)).find? (·.index == n)).getD (.other n)

/-- Is this one of the themes with a name? -/
def isValid : Theme → Bool
  | .other _ => false
  | _ => true

/-- The name of a theme. -/
def name : Theme → String
  | .plain => "default"
  | .light => "light"
  | .dark => "dark"
  | .bold => "bold"
  | .fine => "fine"
  | .glass => "glass"
  | .other n => s!"Theme({n})"

/-- What the themes are called together. -/
def typeName : String := "Theme"

/-- Is the background dark? -/
def isDark (t : Theme) : Bool := t == .dark

end Theme

/-- Everything that a compilation may be told. -/
structure Options where
  debug : Bool := false
  scale : Float := 1
  border : Float := 5
  addAutoStyles : Bool := true
  styleMode : StyleMode := .css
  background : String := "default"
  seed : Int := 0
  loopLimit : Int := 1000
  varLimit : Int := 1024
  depthLimit : Int := 100
  pathRepeatLimit : Int := 10000
  fontSize : Float := 3
  fontFamily : String := "sans-serif"
  theme : Theme := .plain
  svgStyle : String := ""
  userStylesheet : String := ""
deriving Repr, Inhabited

namespace Options

/-- Why options cannot be used, if so. -/
def problem? (o : Options) : Option OptionFault :=
  if o.scale ≤ 0 then some (.scale (Number.generalText o.scale))
  else if o.border < 0 then some (.border (Number.generalText o.border))
  else if o.loopLimit ≤ 0 || o.varLimit ≤ 0 || o.depthLimit ≤ 0 || o.pathRepeatLimit ≤ 0 then
    some (.limits o.loopLimit o.varLimit o.depthLimit o.pathRepeatLimit)
  else if o.fontSize ≤ 0 then some (.fontSize (Number.generalText o.fontSize))
  else none

/-- Check that options can be used. -/
def validate (o : Options) : Except Fault Unit :=
  match o.problem? with
  | some f => .error (.option f)
  | none => .ok ()

/-- Read an option value. -/
def readValue {β : Type} (name : String) (reader : Reader) (read : String → Except Number.ReadFault β)
    (text : String) : Except Fault β :=
  (read text).mapError fun why => .option (.value name reader text why)

/-- Read an option value that is one of several names. -/
def readMember {β : Type} (name typeName : String) (named : List (String × β)) (text : String) :
    Except Fault β :=
  match named.lookup text with
  | some x => .ok x
  | none => .error (.option (.notMember name text typeName))

/-- The options with one changed, before any check. -/
def assign (o : Options) (name text : String) : Except Fault Options := do
  let bool := readValue name .bool Number.readBool
  let float := readValue name .float Number.read
  let count := readValue name .count Number.readInt
  match name with
  | "debug" => return { o with debug := ← bool text }
  | "scale" => return { o with scale := ← float text }
  | "border" => return { o with border := ← float text }
  | "add-auto-styles" | "auto-styles" => return { o with addAutoStyles := ← bool text }
  | "auto-style-mode" =>
    return { o with styleMode := ← readMember name StyleMode.typeName StyleMode.named text }
  | "background" => return { o with background := text }
  | "seed" => return { o with seed := ← readValue name .int Number.readInt text }
  | "loop-limit" => return { o with loopLimit := ← count text }
  | "var-limit" => return { o with varLimit := ← count text }
  | "depth-limit" => return { o with depthLimit := ← count text }
  | "path-repeat-limit" => return { o with pathRepeatLimit := ← count text }
  | "font-size" => return { o with fontSize := ← float text }
  | "font-family" => return { o with fontFamily := text }
  | "theme" => return { o with theme := ← readMember name Theme.typeName Theme.named text }
  | "svg-style" => return { o with svgStyle := text }
  | _ => throw (.option (.unknown name))

/-- Change one option, given by its name in the markup. The outcome is checked as a whole. -/
def set (o : Options) (name value : String) : Except Fault Options := do
  let o ← o.assign name (Text.trim value)
  o.validate
  return o

end Options

end DiagramMarkup
