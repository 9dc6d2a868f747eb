import DiagramMarkup.Document.Options
import DiagramMarkup.Files.Path
import DiagramMarkup.Text.Blank

/-!
# Settings

Everything that a user may settle beforehand: how documents are compiled, what is written where, what is logged and
where a report goes. A field that is not set keeps its default.
-/

namespace DiagramMarkup

/-- Previews of the results as pictures. A size of zero is taken from the document. -/
structure PreviewSettings where
  enable : Bool := false
  width : Int := 0
  height : Int := 0
  strokeFactor : Float := 1

/-- How results are named. -/
structure OutputSettings where
  nameTemplate : String := ""
  plainLetters : Bool := false
  preview : PreviewSettings := {}

/-- One destination of messages. The empty text leaves a part open. -/
structure LogSettings where
  level : String
  destination : String := ""
  mode : String := ""

/-- All settings. -/
structure Settings where
  version : Int := 1
  options : Options := {}
  stylesheetPath : String := ""
  output : OutputSettings := {}
  fileLog : LogSettings := { level := "none", destination := "svgdx.log", mode := "overwrite" }
  consoleLog : LogSettings := { level := "normal" }
  reportPath : String := "svgdx-report.zip"

/-- The settings with everything left open. -/
def Settings.default : Settings := {}

/-- Can a file have this path? A cleaned path that means a directory, or nothing but blanks, cannot be one. -/
def isFilePath (p : String) : Bool :=
  !Text.isBlankText p && p != "/" && p != "." && p != ".." && !Text.endsWith "/.." p

/-- A path cleaned, unless it is left open. -/
def cleanIfSet (p : String) : String := if p == "" then "" else Files.Path.clean p

namespace LogSettings

/-- The levels of messages. -/
def levels : List String := ["none", "debug", "normal"]

/-- What can happen to a file with earlier messages. -/
def modes : List String := ["append", "overwrite"]

/-- Can messages be logged this way? -/
def isValid (l : LogSettings) : Bool :=
  levels.contains l.level && (l.destination == "" || isFilePath l.destination) &&
    (l.mode == "" || modes.contains l.mode)

/-- The settings with a clean destination. -/
def clean (l : LogSettings) : LogSettings := { l with destination := cleanIfSet l.destination }

end LogSettings

/-- Can previews be made this way? -/
def PreviewSettings.isValid (p : PreviewSettings) : Bool := 0 ≤ p.width && 0 ≤ p.height && 0 ≤ p.strokeFactor

namespace Settings

/-- Can documents be compiled this way? -/
def compiles (o : Options) : Bool :=
  0 < o.scale && 0 ≤ o.border && 1 ≤ o.loopLimit && 1 ≤ o.varLimit && 1 ≤ o.depthLimit && 1 ≤ o.pathRepeatLimit &&
    0 < o.fontSize && o.fontFamily != ""

/-- The settings with clean paths. -/
def clean (s : Settings) : Settings :=
  { s with fileLog := s.fileLog.clean, consoleLog := s.consoleLog.clean, reportPath := cleanIfSet s.reportPath }

/-- Can the settings be used? -/
def isValid (s : Settings) : Bool :=
  s.version == 1 && compiles s.options && s.output.preview.isValid && s.fileLog.isValid && s.consoleLog.isValid &&
    isFilePath s.reportPath

end Settings

end DiagramMarkup
