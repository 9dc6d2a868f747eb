import DiagramMarkup.Element.Event
import DiagramMarkup.Files.Name
import DiagramMarkup.Files.NameTemplate
import DiagramMarkup.Text.Romanize

/-!
# Output paths

Where the output of a source goes: below the destination, under the directories of the source unless they are not
wanted, with a name made from a template or from the source.
-/

namespace DiagramMarkup.Files

/-- How output files are named. -/
structure Naming where
  /-- Leave out the directories of the source. -/
  noDirs : Bool := false
  /-- The template of the name, empty for none. -/
  template : String := ""
  /-- Write names in plain letters. -/
  plainLetters : Bool := false
deriving Repr

/-- A compiled document with its place among the sources. -/
structure OutputDoc where
  /-- The path of the source, relative to what was asked for. -/
  source : String
  index : Int
  runId : String
  events : List Event

/-- The text of the first title. -/
def titleOf (evs : List Event) : String :=
  let opens := fun (e : Event) => match e with
    | .start el => el.name == "title"
    | _ => false
  let closes := fun (e : Event) => match e with
    | .close name => name == "title"
    | _ => false
  let chars := fun (e : Event) => match e with
    | .leaf (.text s) | .leaf (.cdata s) => s
    | _ => ""
  let behind := evs.dropWhile (!opens ·)
  if behind.any closes then Text.trim (String.join ((behind.takeWhile (!closes ·)).map chars)) else ""

namespace OutputDoc

/-- The title of the document. -/
def title (d : OutputDoc) : String := titleOf d.events

/-- An attribute of the outermost element. -/
def rootAttr (d : OutputDoc) (name : String) : String :=
  ((d.events.findSome? Event.element?).map fun el => el.attrs.value name).getD ""

/-- The setting that holds the name template. -/
def templateSetting : String := "name_template"

/-- What a name template can refer to. -/
def fields (d : OutputDoc) : NameFields where
  context := templateSetting
  name := Path.stem d.source
  sourceFile := d.source
  sourceDir := if Path.dir d.source == "." then "" else Path.dir d.source
  index := d.index
  title := d.title
  width := d.rootAttr "width"
  height := d.rootAttr "height"
  runId := d.runId

end OutputDoc

/-- The extension of output files. -/
def outputExt : String := ".svg"

/-! ## Places below the destination

Names are spelt by a function from texts to texts before they are cleaned. -/

/-- One component of an output path. -/
def pathSegment (spell : String → String) (s : String) : String := cleanName (spell s)

/-- The name of an output file made from the source. -/
def defaultName (spell : String → String) (source : String) : String :=
  pathSegment spell (Path.stem source) ++ outputExt

/-- The directory of the output. -/
def outputDir (noDirs : Bool) (source dest : String) : String :=
  if noDirs then dest else Path.join [dest, Path.dir source]

/-- A name with directories below the output directory. Components that mean a directory relative to another are left
out. -/
def placeBelow (spell : String → String) (dir name : String) : String :=
  match (Path.segments name).reverse with
  | [] => dir
  | last :: parents =>
    let file := pathSegment spell (Text.dropEnd outputExt last) ++ outputExt
    let dirs := (parents.reverse.filter fun s => s != "." && s != "..").map (pathSegment spell)
    Path.join (dir :: dirs ++ [file])

/-- The path of the output when the template gives the text `name`, or when there is nothing that it gives. -/
def placeOutput (spell : String → String) (noDirs : Bool) (source dest : String) (name : Option String) : String :=
  let dir := outputDir noDirs source dest
  let name := Text.trim (name.getD "")
  if name == "" then Path.join [dir, defaultName spell source] else placeBelow spell dir name

namespace Naming

/-- How components are spelt. -/
def spell (n : Naming) : String → String := if n.plainLetters then Text.slug else id

/-- The path of the output, and why the template could not be used, if so. -/
def outputPath (n : Naming) (d : OutputDoc) (dest : String) : String × Option TemplateFault :=
  let place := placeOutput n.spell n.noDirs d.source dest
  if n.template == "" then (place none, none)
  else
    match NameTemplate.expand n.template d.fields with
    | .error f => (place none, some f)
    | .ok s => (place (some s), none)

end Naming

/-- The name of a source's file in a report. -/
def reportName (index : Int) (kind source : String) : String :=
  let digits := (toString index.natAbs).toList
  let sign := if index < 0 then ['-'] else []
  let zeros := List.replicate (3 - sign.length - digits.length) '0'
  kind ++ "-" ++ String.ofList (sign ++ zeros ++ digits) ++ "-" ++ Path.base source

end DiagramMarkup.Files
