import DiagramMarkup.Compile.Root
import DiagramMarkup.Element.Outline
import DiagramMarkup.Files.OutputPath
import DiagramMarkup.Files.Report
import DiagramMarkup.Files.Source
import DiagramMarkup.Text.Registry

/-!
# Runs

A run finds the diagrams in a file, a directory or an archive, compiles them in natural order and writes the results
below a destination. A source that fails is logged and counted, and the others are still processed.
-/

namespace DiagramMarkup.Files

/-! ## What a run is given -/

/-- Where the bytes of a source come from. -/
inductive Place where
  | file (path : String)
  | entry (archive : String) (e : ArchiveEntry)

/-- The file of a source. Entries of archives have no file of their own. -/
def Place.origin : Place → Option String
  | .file path => some path
  | .entry .. => none

/-- Why no preview is made. -/
inductive DrawFault where
  | error (why : String)
  /-- Drawing breaks off. -/
  | panic (why : String)
deriving Repr

/-- The wording of a fault in drawing. -/
def DrawFault.message : DrawFault → String
  | .error why => "unable to render preview: " ++ why
  | .panic why => "transformation panic: " ++ why

/-- What fails outside of the program, and why; by default nothing does. -/
structure Troubles where
  /-- A directory is not listed to its end. -/
  list : String → Option String := fun _ => none
  /-- The start, by which a file or an entry is recognised, cannot be read. -/
  look : Place → Option String := fun _ => none
  /-- The file or entry cannot be opened. -/
  enter : Place → Option String := fun _ => none
  /-- It cannot be read to its end. -/
  read : Place → Option String := fun _ => none
  /-- No preview can be made of an output. -/
  draw : List UInt8 → Option DrawFault := fun _ => none

namespace Troubles

/-- Why the start of a place cannot be read, if its name makes one look at it. -/
def start (t : Troubles) (promising : Bool) (p : Place) : Option String := if promising then t.look p else none

/-- The entries of an archive. -/
def unpack (t : Troubles) (path : String) (c : Content) : Except String (List ArchiveEntry) :=
  match t.enter (.file path), c with
  | some why, _ => .error why
  | none, .archive es => .ok es
  | none, _ => .error "zip: not a valid zip file"

/-- The files under a path in an archive, in natural order. -/
def walk (t : Troubles) (path : String) (c : Content) (start : String) : Except String (List ArchiveEntry) := do
  let es ← t.unpack path c
  (Archive.files es start).mapError Archive.escapeMessage

/-- The directories from `dir` on that lead to a path below it. -/
def ways (dir rel : String) : List String := dir :: (Disk.chain rel).dropLast.map (Disk.walked dir)

/-- Are all directories listed that lead to a path below one of them? -/
def reaches (t : Troubles) (dir rel : String) : Bool := (ways dir rel).all fun d => (t.list d).isNone

/-- Why directories that are reached are not listed, in the order of a walk. -/
def unlisted (t : Troubles) (d : Disk) (dir : String) : List String :=
  (t.list dir).toList ++
    ((d.dirsBelow (Path.clean dir)).filter (t.reaches dir)).filterMap fun rel => t.list (Disk.walked dir rel)

/-- The paths of the files below a directory that are reached, in the order of a walk. -/
def found (t : Troubles) (d : Disk) (dir : String) : List String :=
  (((d.filesBelow (Path.clean dir)).map (·.1)).filter (t.reaches dir)).map (Disk.walked dir)

end Troubles

/-- What a run is told. -/
structure RunSettings where
  options : Options := {}
  naming : Naming := {}
  /-- Replace files that are there already. -/
  overwrite : Bool := false
  /-- Also write previews. -/
  previews : Bool := false
  dest : String
  runId : String := ""
  /-- What is left to chance, by the number of the source that is compiled. -/
  chance : Int → Chance := fun _ => {}
  sorting : Sorting := .stable
  troubles : Troubles := {}

/-- The paths of the files below a directory that are reached, in natural order. -/
def RunSettings.paths (cfg : RunSettings) (d : Disk) (dir : String) : List String :=
  cfg.sorting.sort (cfg.troubles.found d dir)

/-! ## What goes wrong -/

/-- Why a source has no output. -/
inductive SourceFault where
  | closed (why : String)
  | unread (why : String)
  | unreadable (name : String)
  | compile (name : String) (e : CompileError)
  | unwritten (f : TagFault)
  | ownSource (path : String)
  | present (path : String)
  | notDirectory (path : String)
  | tooLong (path : String)
  | isDirectory (path : String)
  /-- A component of a directory still to be made is too long. -/
  | longDirectory (path : String)
  /-- The file name is too long, below a directory still to be made. -/
  | longFile (path : String)
  | undrawn (f : DrawFault)
deriving Repr

/-- The wording of a source fault. -/
def SourceFault.message : SourceFault → String
  | .closed why => why
  | .unread why => "unable to read source: " ++ why
  | .unreadable name => "unable to parse source (" ++ name ++ "): unable to parse document"
  | .compile name e => "unable to transform source (" ++ name ++ "): " ++ e.message
  | .unwritten f => "unable to serialize output: " ++ f.message
  | .ownSource path => "output would replace its source: " ++ path
  | .present path => "output file already exists: " ++ path
  | .notDirectory path => "stat " ++ path ++ ": not a directory"
  | .tooLong path => "stat " ++ path ++ ": file name too long"
  | .isDirectory path => "unable to write output: open " ++ path ++ ": is a directory"
  | .longDirectory path => "unable to create output directory: mkdir " ++ path ++ ": file name too long"
  | .longFile path => "unable to write output: open " ++ path ++ ": file name too long"
  | .undrawn f => f.message

/-- Why a file cannot be read. -/
inductive ReadFault where
  | missing
  | notDirectory
  | tooLong
  | isDirectory
deriving Repr, DecidableEq

/-- The wording for a file that cannot be read. -/
def ReadFault.message (path : String) : ReadFault → String
  | .missing => "open " ++ path ++ ": no such file or directory"
  | .notDirectory => "open " ++ path ++ ": not a directory"
  | .tooLong => "open " ++ path ++ ": file name too long"
  | .isDirectory => "read " ++ path ++ ": is a directory"

/-- Why a run fails. -/
inductive RunFault where
  | noSource
  | notFound (path : String)
  /-- The path goes on below something that holds nothing. -/
  | notInside (dir rest : String)
  | unrecognised (path : String)
  /-- The start of the file, which tells whether it is an archive, cannot be read. -/
  | archiveType (why : String)
  | fileType (why : String)
  | archive (why : String)
  | sources (failed count : Nat)
  | stylesheet (path : String) (why : ReadFault)
deriving Repr

/-- The wording of a run fault. -/
def RunFault.message : RunFault → String
  | .noSource => "no input source has been specified"
  | .notFound path => "input source was not found (" ++ path ++ ")"
  | .notInside dir rest => "input source was not found (" ++ dir ++ ") => (" ++ rest ++ ")"
  | .unrecognised path => "input was not recognized as diagram source (" ++ path ++ ")"
  | .archiveType why => "unable to check archive type: " ++ why
  | .fileType why => "unable to check file type: " ++ why
  | .archive why => "unable to process archive: " ++ why
  | .sources failed count => s!"{failed} of {count} sources could not be transformed"
  | .stylesheet path why => "unable to read stylesheet: " ++ why.message path

/-! ## Sources -/

/-- How serious a log entry is. -/
inductive LogLevel where
  | warn
  | error
deriving Repr, DecidableEq

/-- An entry of the log. -/
structure LogEntry where
  level : LogLevel
  message : String
  cause : Option String := none
deriving Repr

/-- Where a run stands. -/
structure RunState where
  disk : Disk
  report : Option Report := none
  /-- Log entries, the latest first. -/
  log : List LogEntry := []
  /-- How many sources were tried. -/
  count : Nat := 0
  /-- How many of them failed. -/
  failed : Nat := 0

/-- A step of a run. -/
abbrev RunM := StateM RunState

namespace Run

/-- Add to the log. -/
def note (level : LogLevel) (message : String) (cause : Option String) : RunM Unit :=
  modify fun s => { s with log := ⟨level, message, cause⟩ :: s.log }

/-- Change the report, if one is kept. -/
def reporting (f : Report → Except ReportFault Report) : RunM Unit :=
  modify fun s => { s with report := s.report.map fun r => (f r).toOption.getD r }

/-- A source with its name relative to what was asked for. -/
structure Source where
  name : String
  bytes : List UInt8
  place : Place

/-- Go on unless there is a fault. -/
def refuse (f : Option SourceFault) : ExceptT SourceFault RunM Unit :=
  match f with
  | some f => throw f
  | none => pure ()

/-- Make the directory of a new file. Directories above a component that is too long are made all the same. -/
def makeRoom (path : String) : ExceptT SourceFault RunM Unit := do
  match Disk.overlong? path with
  | none => pure ()
  | some p =>
    modify fun s => { s with disk := s.disk.makeDir (Path.dir p) }
    throw (if p == path then .longFile path else .longDirectory p)

/-- What is there already is replaced only on request. -/
def replace (cfg : RunSettings) (path : String) : ExceptT SourceFault RunM Unit := do
  refuse (if cfg.overwrite then none else some (.present path))
  note .warn "Overwriting existing file" none

/-- Make sure that an output can be written. -/
def clearWay (cfg : RunSettings) (path : String) : ExceptT SourceFault RunM Unit := do
  match (← get).disk.stat path with
  | .missing => makeRoom path
  | .notDirectory => throw (.notDirectory path)
  | .tooLong => throw (.tooLong path)
  | .file _ => replace cfg path
  | .dir =>
    replace cfg path
    throw (.isDirectory path)

/-- Write an output file. -/
def writeOutput (cfg : RunSettings) (path : String) (c : Content) : ExceptT SourceFault RunM Unit := do
  clearWay cfg path
  modify fun s => { s with disk := s.disk.write path c }

/-- The path of the output of a document; a template that fails is logged. -/
def outputPath (cfg : RunSettings) (d : OutputDoc) : RunM String := do
  let (path, fault) := cfg.naming.outputPath d cfg.dest
  fault.forM fun f =>
    note .warn "Unable to prepare output filename" (some (f.message OutputDoc.templateSetting))
  return path

/-- Read a source and compile it: the output and its text. -/
def drawSource (cfg : RunSettings) (src : Source) (index : Int) :
    ExceptT SourceFault RunM (List Event × String) := do
  refuse ((cfg.troubles.read src.place).map .unread)
  let bytes := sourceBytes (Encoding.detect src.bytes) src.bytes
  reporting (·.storeData (reportName index "source" src.name) bytes)
  match Xml.readBytes bytes with
  | none => throw (.unreadable src.name)
  | some evs =>
    match compile cfg.options evs (cfg.chance index) with
    | .error e => throw (.compile src.name e)
    | .ok out =>
      reporting (·.storeData (reportName index "tree" src.name ++ ".txt")
        (Text.toBytes (Event.outline out).toList))
      match Xml.write out with
      | .error f => throw (.unwritten f)
      | .ok text => return (out, text)

/-- The path of the preview of an output. -/
def picturePath (path : String) : String := Text.dropEnd (Path.ext path) path ++ ".png"

/-- Write the preview of an output. -/
def writePreview (cfg : RunSettings) (src : Source) (index : Int) (path text : String) :
    ExceptT SourceFault RunM Unit := do
  match cfg.troubles.draw (Text.toBytes text.toList) with
  | some (.panic why) =>
    note .error "Transformation ended with panic" none
    throw (.undrawn (.panic why))
  | some (.error why) => throw (.undrawn (.error why))
  | none =>
    writeOutput cfg (picturePath path) .picture
    reporting (·.store (reportName index "preview" src.name) (picturePath path))

/-- Compile the source with a number and write its output. -/
def emitSource (cfg : RunSettings) (src : Source) (index : Int) : ExceptT SourceFault RunM Unit := do
  let (out, text) ← drawSource cfg src index
  let path ← outputPath cfg ⟨src.name, index, cfg.runId, out⟩
  refuse (if src.place.origin == some path then some (.ownSource path) else none)
  writeOutput cfg path (.data (Text.toBytes text.toList))
  reporting (·.store (reportName index "result" src.name) path)
  if cfg.previews then writePreview cfg src index path text

/-- Count a source, compile it and write its output. -/
def compileSource (cfg : RunSettings) (src : Source) : ExceptT SourceFault RunM Unit := do
  refuse ((cfg.troubles.enter src.place).map .closed)
  modify fun s => { s with count := s.count + 1 }
  emitSource cfg src (← get).count

/-- Process a source; a failure is logged and counted. -/
def trySource (cfg : RunSettings) (message : String) (src : Source) : RunM Unit := do
  match ← (compileSource cfg src).run with
  | .ok () => return
  | .error f =>
    modify fun s => { s with failed := s.failed + 1 }
    note .error message (some f.message)

/-- Process a file that is a diagram. -/
def processFile (cfg : RunSettings) (path name : String) (bytes : List UInt8) : RunM Unit :=
  trySource cfg "Unable to process file" ⟨name, bytes, .file path⟩

/-! ## Archives and directories -/

/-- The name of an archive entry; `decode` reads a name that is perhaps not UTF-8. -/
def entryName (decode : Option (List UInt8 → List Char)) (e : ArchiveEntry) : String :=
  match decode with
  | some decode => if e.isForeign then String.ofList (decode e.nameBytes) else e.name
  | none => e.name

/-- The name of the source that an archive entry becomes. -/
def entrySource (decode : Option (List UInt8 → List Char)) (below : String) (e : ArchiveEntry) : String :=
  Path.join [below, entryName decode e]

/-- Process an entry of an archive: a diagram, or something else, which is skipped. -/
def processEntry (cfg : RunSettings) (decode : Option (List UInt8 → List Char)) (path below : String)
    (e : ArchiveEntry) : RunM Unit := do
  match cfg.troubles.start (hasSourceExt e.name) (.entry path e) with
  | some why => note .warn "Skipping file in archive" (some why)
  | none =>
    if isSource e.name e.content then
      trySource cfg "Unable to process file in archive" ⟨entrySource decode below e, e.content, .entry path e⟩

/-- Process the diagrams under a path in an archive; their outputs go below a directory. -/
def processArchive (cfg : RunSettings) (set : Option Text.Charset) (path : String) (c : Content)
    (start below : String) : RunM (Except String Unit) := do
  match cfg.troubles.walk path c start with
  | .error why => return .error why
  | .ok files =>
    files.forM (processEntry cfg (set.map Text.Charset.decode) path below)
    return .ok ()

/-- What is left of a path behind that of a directory, without the slash between them. -/
def nameBelow (dir path : String) : String := Text.dropStart "/" (Text.dropStart dir path)

/-- Process a file below a directory: an archive, a diagram, or something else, which is skipped. -/
def processContent (cfg : RunSettings) (set : Option Text.Charset) (dir path : String) (c : Content) :
    RunM Unit := do
  let name := nameBelow dir path
  match cfg.troubles.start (hasArchiveExt path || hasSourceExt path) (.file path) with
  | some why => note .warn "Skipping file" (some why)
  | none =>
    if isArchive path c then
      match ← processArchive cfg set path c "" (Path.dir name) with
      | .ok () => return
      | .error why => note .error "Unable to process archive" (some why)
    else if isSource path c.bytes then processFile cfg path name c.bytes

/-- Process what was found below a directory. It is read now, since the output of an earlier source may have replaced
it. -/
def processFound (cfg : RunSettings) (set : Option Text.Charset) (dir path : String) : RunM Unit := do
  match (← get).disk.stat path with
  | .file c => processContent cfg set dir path c
  | _ => return

/-- Process everything below a directory, in natural order. -/
def processDir (cfg : RunSettings) (set : Option Text.Charset) (dir : String) : RunM Unit := do
  let d := (← get).disk
  (cfg.troubles.unlisted d dir).forM fun why => note .warn "Skipping path" (some why)
  (cfg.paths d dir).forM (processFound cfg set dir)

/-! ## Runs -/

/-- What remains of a path behind its start. -/
def behind (start p : String) : String := Text.dropStart start p

/-- Process the file that the start `head` of the path `src` leads to: an archive, inside which the path may go on, or a
diagram; `isWhole` tells that nothing has been cut off but slashes. -/
def processHead (cfg : RunSettings) (set : Option Text.Charset) (src head : String) (isWhole : Bool) (c : Content) :
    RunM (Except RunFault Unit) := do
  match cfg.troubles.start (hasArchiveExt head) (.file head) with
  | some why => return .error (.archiveType why)
  | none =>
    if isArchive head c then
      let start := Text.dropStart "/" (behind head src)
      return (← processArchive cfg set head c start "").mapError .archive
    else
      match cfg.troubles.start (hasSourceExt head) (.file head) with
      | some why => return .error (.fileType why)
      | none =>
        if isSource head c.bytes && isWhole then
          processFile cfg head (Path.base head) c.bytes
          return .ok ()
        else
          return .error (.unrecognised head)

/-- Process what the start `head` of the path `src` leads to, without a slash at its end. When it leads nowhere, the
path may go on inside an archive, and a shorter start is tried; `isWhole` tells that the last cut took off nothing but
slashes. -/
def process (cfg : RunSettings) (set : Option Text.Charset) (src : String) :
    Nat → (head : String) → (isWhole : Bool) → RunM (Except RunFault Unit)
  | 0, _, _ => return .error (.notFound src)
  | fuel + 1, head, isWhole => do
    if head == "" then return .error (.notFound src)
    else
      let head := Text.dropEnd "/" head
      match (← get).disk.stat head with
      | .dir =>
        if isWhole then
          processDir cfg set head
          return .ok ()
        else
          return .error (.notInside head (behind head src))
      | .file c => processHead cfg set src head isWhole c
      | _ =>
        let (above, last) := Path.split head
        process cfg set src fuel above (last == "")

/-- The character set for names in archives; a name that is not known is logged. -/
def nameSet (name : String) : RunM (Option Text.Charset) := do
  let ignored := "Unknown character set specification. Ignoring..."
  if name == "" then return none
  match Text.Charset.ofRegistered? name with
  | some (some s) => return some s
  | some none =>
    note .warn ignored none
    return none
  | none =>
    note .warn ignored (some "ianaindex: ")
    return none

/-- Process a source path; in the end it counts whether a source failed. `charset` names the character set of names in
archives. -/
def runSource (cfg : RunSettings) (src charset : String) : RunM (Except RunFault Unit) := do
  let set ← nameSet charset
  match ← process cfg set src (src.toList.length + 1) src true with
  | .error f => return .error f
  | .ok () =>
    let s ← get
    return if s.failed = 0 then .ok () else .error (.sources s.failed s.count)

/-- Run with a source path, if one is given. `extra` tells that more was given than a source and a destination. -/
def run (cfg : RunSettings) (src : Option String) (extra : Bool) (charset : String) :
    RunM (Except RunFault Unit) := do
  match src with
  | none => return .error .noSource
  | some src =>
    if extra then note .warn "Mailformed command line, too many destinations" none
    runSource cfg src charset

/-- Read the author's style sheet into the options. -/
def loadStylesheet (cfg : RunSettings) (path : String) : RunM (Except RunFault RunSettings) := do
  if path == "" then return .ok cfg
  match (← get).disk.stat path with
  | .file c =>
    reporting (·.store "stylesheet.css" path)
    let sheet := String.ofList (Text.ofBytes c.bytes)
    return .ok { cfg with options := { cfg.options with userStylesheet := sheet } }
  | .missing => return .error (.stylesheet path .missing)
  | .notDirectory => return .error (.stylesheet path .notDirectory)
  | .tooLong => return .error (.stylesheet path .tooLong)
  | .dir => return .error (.stylesheet path .isDirectory)

end Run

end DiagramMarkup.Files
