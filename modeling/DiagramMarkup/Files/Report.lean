import DiagramMarkup.Files.Disk
import DiagramMarkup.Files.NaturalOrder

/-!
# Reports

A report collects what a run read and made: data, and files that are read when the report is closed. It is closed into
an archive with a manifest in front.
-/

namespace DiagramMarkup.Files

/-- Something in a report. -/
inductive ReportEntry where
  /-- A file, read when the report is closed. -/
  | file (path : String)
  | data (bytes : List UInt8)

/-- The path of a file, empty for data. -/
def ReportEntry.origin : ReportEntry → String
  | .file p => p
  | .data _ => ""

/-- Named entries. -/
structure Report where
  entries : List (String × ReportEntry) := []

/-- An entry that would replace a different one. -/
inductive ReportFault where
  | file (name old new : String)
  | data (name : String)
deriving Repr, DecidableEq

/-- The wording of a refused entry. -/
def ReportFault.message : ReportFault → String
  | .file name old new =>
    "attempt to overwrite report entry [" ++ name ++ "]: was " ++ Text.quote old ++ ", now " ++ Text.quote new
  | .data name => "attempt to overwrite report entry [" ++ name ++ "]"

namespace Report

/-- Record a file; it may be recorded again under the same name. -/
def store (r : Report) (name path : String) : Except ReportFault Report :=
  match r.entries.lookup name with
  | none => .ok ⟨r.entries ++ [(name, .file path)]⟩
  | some old => if old.origin == path then .ok r else .error (.file name old.origin path)

/-- Record data under a new name. -/
def storeData (r : Report) (name : String) (bytes : List UInt8) : Except ReportFault Report :=
  match r.entries.lookup name with
  | none => .ok ⟨r.entries ++ [(name, .data bytes)]⟩
  | some _ => .error (.data name)

/-- What has become of an entry when the report is closed. -/
inductive Outcome where
  | present (c : Content)
  | missing
  | skipped

/-- Look an entry up. -/
def outcome (d : Disk) : ReportEntry → Outcome
  | .data bs => .present (.data bs)
  | .file p =>
    match d.stat p with
    | .file c => .present c
    | .dir => .skipped
    | _ => .missing

/-- A line of the manifest: name, size or what is wrong, and origin. -/
def line (name : String) (e : ReportEntry) (o : Outcome) : String :=
  let size := match o with
    | .present c => toString c.bytes.length
    | .missing => "missing"
    | .skipped => "skipped"
  let origin := if e.origin == "" then "-" else e.origin
  name ++ "\t" ++ size ++ "\t" ++ origin ++ "\n"

/-- The archive of a report: the manifest, and the entries that are there, in natural order. -/
def close (r : Report) (d : Disk) : List (String × Content) :=
  let rows := (naturalSort Prod.fst r.entries).map fun (name, e) => (name, e, outcome d e)
  let manifest := String.join (rows.map fun (name, e, o) => line name e o)
  ("MANIFEST", .data (Text.toBytes manifest.toList)) :: rows.filterMap fun (name, _, o) =>
    match o with
    | .present c => some (name, c)
    | _ => none

end Report

end DiagramMarkup.Files
