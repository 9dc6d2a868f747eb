import DiagramMarkup.Settings.Basic
import DiagramMarkup.Yaml.Reader
import DiagramMarkup.Yaml.Writer

/-!
# Settings as text

Settings are read from a document laid over the defaults, and written with all their fields. An unknown or repeated
field is a fault, and so is a value of the wrong kind; a value left open keeps what was there.
-/

namespace DiagramMarkup

/-- Why a text gives no settings. -/
inductive SettingsFault where
  /-- The text is no document. -/
  | malformed
  /-- A field is unknown or repeated, or its value is of the wrong kind. -/
  | field
  /-- The style sheet is not there. -/
  | missingStylesheet
  /-- A value is out of its range. -/
  | invalid
deriving Repr, DecidableEq

namespace Settings

/-! ## Reading -/

/-- The value of a field, or what it was if the value is left open. -/
def value {α : Type} (read : Yaml.Node → Option α) (n : Yaml.Node) (old : α) : Option α :=
  if n.isNull then some old else read n

/-- Set the fields of a section. -/
def fill {α : Type} (set : α → String → Yaml.Node → Option α) (n : Yaml.Node) (old : α) : Option α :=
  match n with
  | .map entries =>
    if (entries.map (·.1)).eraseDups.length == entries.length then
      entries.foldlM (fun s e => set s e.1 e.2) old
    else none
  | n => if n.isNull then some old else none

/-- A member of an enumeration by its name. -/
def member? {α : Type} (named : List (String × α)) (n : Yaml.Node) : Option α := n.string?.bind fun w => named.lookup w

/-- Set a field of the compilation. -/
def setTransform (s : Settings) (name : String) (n : Yaml.Node) : Option Settings := do
  let o := s.options
  let bool := value Yaml.Node.bool? n
  let int := value Yaml.Node.int? n
  let float := value Yaml.Node.float? n
  let text := value Yaml.Node.string? n
  match name with
  | "debug" => return { s with options := { o with debug := ← bool o.debug } }
  | "scale" => return { s with options := { o with scale := ← float o.scale } }
  | "border" => return { s with options := { o with border := ← float o.border } }
  | "add_auto_styles" => return { s with options := { o with addAutoStyles := ← bool o.addAutoStyles } }
  | "auto_style_mode" =>
    return { s with options := { o with styleMode := ← value (member? StyleMode.named) n o.styleMode } }
  | "background" => return { s with options := { o with background := ← text o.background } }
  | "seed" => return { s with options := { o with seed := ← int o.seed } }
  | "loop_limit" => return { s with options := { o with loopLimit := ← int o.loopLimit } }
  | "var_limit" => return { s with options := { o with varLimit := ← int o.varLimit } }
  | "depth_limit" => return { s with options := { o with depthLimit := ← int o.depthLimit } }
  | "path_repeat_limit" => return { s with options := { o with pathRepeatLimit := ← int o.pathRepeatLimit } }
  | "font_size" => return { s with options := { o with fontSize := ← float o.fontSize } }
  | "font_family" => return { s with options := { o with fontFamily := ← text o.fontFamily } }
  | "theme" => return { s with options := { o with theme := ← value (member? Theme.named) n o.theme } }
  | "svg_style" => return { s with options := { o with svgStyle := ← text o.svgStyle } }
  | "stylesheet_path" => return { s with stylesheetPath := ← text s.stylesheetPath }
  | _ => none

/-- Set a field of previews. -/
def setPreview (p : PreviewSettings) (name : String) (n : Yaml.Node) : Option PreviewSettings := do
  match name with
  | "enable" => return { p with enable := ← value Yaml.Node.bool? n p.enable }
  | "width" => return { p with width := ← value Yaml.Node.int? n p.width }
  | "height" => return { p with height := ← value Yaml.Node.int? n p.height }
  | "stroke_width_factor" => return { p with strokeFactor := ← value Yaml.Node.float? n p.strokeFactor }
  | _ => none

/-- Set a field of the output. -/
def setOutput (o : OutputSettings) (name : String) (n : Yaml.Node) : Option OutputSettings := do
  match name with
  | "name_template" => return { o with nameTemplate := ← value Yaml.Node.string? n o.nameTemplate }
  | "file_name_transliterate" => return { o with plainLetters := ← value Yaml.Node.bool? n o.plainLetters }
  | "png" => return { o with preview := ← fill setPreview n o.preview }
  | _ => none

/-- Set a field of a destination of messages. -/
def setLog (l : LogSettings) (name : String) (n : Yaml.Node) : Option LogSettings := do
  match name with
  | "level" => return { l with level := ← value Yaml.Node.string? n l.level }
  | "destination" => return { l with destination := ← value Yaml.Node.string? n l.destination }
  | "mode" => return { l with mode := ← value Yaml.Node.string? n l.mode }
  | _ => none

/-- Set one of the destinations of messages. -/
def setLogging (s : Settings) (name : String) (n : Yaml.Node) : Option Settings := do
  match name with
  | "file" => return { s with fileLog := ← fill setLog n s.fileLog }
  | "console" => return { s with consoleLog := ← fill setLog n s.consoleLog }
  | _ => none

/-- Set a field of reports. -/
def setReporting (s : Settings) (name : String) (n : Yaml.Node) : Option Settings := do
  match name with
  | "destination" => return { s with reportPath := ← value Yaml.Node.string? n s.reportPath }
  | _ => none

/-- Set a section. -/
def set (s : Settings) (name : String) (n : Yaml.Node) : Option Settings := do
  match name with
  | "version" => return { s with version := ← value Yaml.Node.int? n s.version }
  | "transform" => fill setTransform n s
  | "output" => return { s with output := ← fill setOutput n s.output }
  | "logging" => fill setLogging n s
  | "reporting" => fill setReporting n s
  | _ => none

/-- Check settings and clean their paths. The style sheet has to be there. -/
def check (isFile : String → Bool) (s : Settings) : Except SettingsFault Settings :=
  let s := s.clean
  if s.stylesheetPath != "" && !isFile s.stylesheetPath then .error .missingStylesheet
  else if s.isValid then .ok s
  else .error .invalid

/-- Read settings from a text laid over the defaults. -/
def load (isFile : String → Bool) (text : String) : Except SettingsFault Settings :=
  match Yaml.read text with
  | none => .error .malformed
  | some n =>
    match fill set n default with
    | none => .error .field
    | some s => check isFile s

/-! ## Writing -/

/-- A truth value. -/
def boolNode (b : Bool) : Yaml.Node := .bare (if b then "true" else "false")

/-- A whole number. -/
def intNode (n : Int) : Yaml.Node := .bare (toString n)

/-- A number. -/
def floatNode (x : Float) : Yaml.Node :=
  .bare <| match Number.reading x with
    | .finite _ => Number.generalText x
    | .infinite neg => if neg then "-.inf" else ".inf"
    | .nan => ".nan"

/-- An entry that is left out if its text is empty. -/
def unlessEmpty (name s : String) : List (String × Yaml.Node) := if s == "" then [] else [(name, .text s)]

/-- The entries of a destination of messages. -/
def logNode (l : LogSettings) : Yaml.Node :=
  .map (("level", .text l.level) :: unlessEmpty "destination" l.destination ++ unlessEmpty "mode" l.mode)

/-- The entries of the compilation. -/
def transformNode (s : Settings) : Yaml.Node :=
  let o := s.options
  .map [("debug", boolNode o.debug), ("scale", floatNode o.scale), ("border", floatNode o.border),
    ("add_auto_styles", boolNode o.addAutoStyles), ("auto_style_mode", .text o.styleMode.name),
    ("background", .text o.background), ("seed", intNode o.seed), ("loop_limit", intNode o.loopLimit),
    ("var_limit", intNode o.varLimit), ("depth_limit", intNode o.depthLimit),
    ("path_repeat_limit", intNode o.pathRepeatLimit), ("font_size", floatNode o.fontSize),
    ("font_family", .text o.fontFamily), ("theme", .text o.theme.name), ("svg_style", .text o.svgStyle),
    ("stylesheet_path", .text s.stylesheetPath)]

/-- The entries of the output. -/
def outputNode (o : OutputSettings) : Yaml.Node :=
  .map [("name_template", .text o.nameTemplate), ("file_name_transliterate", boolNode o.plainLetters),
    ("png", .map [("enable", boolNode o.preview.enable), ("width", intNode o.preview.width),
      ("height", intNode o.preview.height), ("stroke_width_factor", floatNode o.preview.strokeFactor)])]

/-- The settings as a text that gives them again. -/
def dump (s : Settings) : String :=
  Yaml.write [("version", intNode s.version), ("transform", s.transformNode), ("output", outputNode s.output),
    ("logging", .map [("file", logNode s.fileLog), ("console", logNode s.consoleLog)]),
    ("reporting", .map [("destination", .text s.reportPath)])]

end Settings

end DiagramMarkup
