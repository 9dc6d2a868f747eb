import DiagramMarkup.Files.Archive
import DiagramMarkup.Files.Path
import DiagramMarkup.Number.Reader

/-!
# Disks

A tree of files as a value: clean paths with their contents, and the directories there are. Reading never changes it,
and writing gives a new one. A path may have more slashes than needed, but names like `..` are not followed.
-/

namespace DiagramMarkup.Files

/-- What a file holds. -/
inductive Content where
  | data (bytes : List UInt8)
  | archive (entries : List ArchiveEntry)
  /-- A rendered preview; its pixels do not matter. -/
  | picture

namespace Content

/-- The bytes of a plain file. -/
def bytes : Content → List UInt8
  | .data bs => bs
  | .archive _ | .picture => []

/-- Does the content start like an archive? -/
def looksPacked : Content → Bool
  | .archive _ => true
  | .picture => false
  | .data (0x50 :: 0x4B :: a :: b :: _) =>
    (a == 0x03 || a == 0x05 || a == 0x07) && (b == 0x04 || b == 0x06 || b == 0x08)
  | .data _ => false

end Content

/-- Does the extension promise an archive? -/
def hasArchiveExt (name : String) : Bool := (Path.ext name).map Number.lowerAscii == ".zip"

/-- Is a file with this name and content an archive? -/
def isArchive (name : String) (c : Content) : Bool := hasArchiveExt name && c.looksPacked

/-- What a path leads to. -/
inductive Stat where
  | file (c : Content)
  | dir
  | missing
  /-- A file stands where a directory is needed. -/
  | notDirectory
  /-- A component is too long. -/
  | tooLong

/-- What a path leads to that ends in a slash: no file. -/
def Stat.asDirectory : Stat → Stat
  | .file _ => .notDirectory
  | s => s

/-- Files with their contents, and directories. -/
structure Disk where
  files : List (String × Content) := []
  dirs : List String := []

namespace Disk

/-- The longest component of a path, in bytes. -/
def componentLimit : Nat := 255

/-- A component below a directory. -/
def child (dir c : String) : String :=
  if dir == "" then c else if dir == "/" then "/" ++ c else dir ++ "/" ++ c

/-- Follow components from a directory. -/
def follow (d : Disk) (dir : String) : List String → Stat
  | [] => .dir
  | c :: rest =>
    let p := child dir c
    if componentLimit < Text.byteLength c.toList then .tooLong
    else
      match d.files.lookup p with
      | some f => if rest.isEmpty then .file f else .notDirectory
      | none => if d.dirs.contains p then follow d p rest else .missing

/-- What a path leads to. -/
def stat (d : Disk) (p : String) : Stat :=
  if p == "" then .missing
  else
    let found := d.follow (if Path.isAbsolute p then "/" else "") ((Path.components p).filter (· != ""))
    if Text.endsWith "/" p then found.asDirectory else found

/-- The directories above a path, and the path itself. -/
def chain (p : String) : List String :=
  let start := if Path.isAbsolute p then "/" else ""
  let step := fun (acc : List String) (c : String) => child (acc.headD start) c :: acc
  (((Path.components p).filter (· != "")).foldl step []).reverse

/-- The path up to its first component that is too long. -/
def overlong? (p : String) : Option String :=
  (chain p).find? fun q => componentLimit < Text.byteLength (Path.split q).2.toList

/-- Make a directory and all above it. -/
def makeDir (d : Disk) (p : String) : Disk :=
  { d with dirs := (chain p).foldl (fun ds q => if ds.contains q then ds else ds ++ [q]) d.dirs }

/-- Replace or add the content of a file. -/
def put (p : String) (c : Content) : List (String × Content) → List (String × Content)
  | [] => [(p, c)]
  | (q, old) :: rest => if q == p then (p, c) :: rest else (q, old) :: put p c rest

/-- Write a file; the directory that holds it is made if needed. -/
def write (d : Disk) (p : String) (c : Content) : Disk :=
  let d := d.makeDir (Path.dir p)
  { d with files := put p c d.files }

/-- Remove a file. -/
def remove (d : Disk) (p : String) : Disk := { d with files := d.files.filter (·.1 != p) }

/-- The path below a directory, if it lies there. -/
def relative? (dir p : String) : Option String := Text.after? (child dir "") p

/-- The path of what is below a directory, as a walk gives it: a clean one. -/
def walked (dir rel : String) : String := child (Path.clean dir) rel

/-- Does a path come before another in a walk, which goes component by component? -/
def walksBefore (p q : String) : Bool := !decide (Path.components q < Path.components p)

/-- The files below a directory with their paths relative to it, in the order of a walk. -/
def filesBelow (d : Disk) (dir : String) : List (String × Content) :=
  let below := d.files.filterMap fun (p, c) => (relative? dir p).map fun r => (r, c)
  below.mergeSort fun a b => walksBefore a.1 b.1

/-- The directories below a directory by their paths relative to it, in the order of a walk. -/
def dirsBelow (d : Disk) (dir : String) : List String :=
  (d.dirs.filterMap (relative? dir)).mergeSort walksBefore

end Disk

end DiagramMarkup.Files
