import DiagramMarkup.Files.NaturalOrder
import DiagramMarkup.Text.Bytes
import DiagramMarkup.Text.Quoted
import DiagramMarkup.Text.Split

/-!
# Archives

The entries of an archive, as far as they matter here. An archive with an entry that could leave the directory it is
unpacked into is refused as a whole.
-/

namespace DiagramMarkup.Files

/-- What the header of an entry tells besides its name. -/
structure EntryFlags where
  /-- Is the name marked as UTF-8? -/
  marked : Bool
  /-- Do the attributes say that this is a directory? -/
  directory : Bool := false

/-- The flags of a plain file. -/
instance : Coe Bool EntryFlags := ⟨fun marked => { marked }⟩

/-- One entry of an archive. The name is given in bytes, since old archives do not tell how to read it. -/
structure ArchiveEntry where
  nameBytes : List UInt8
  flags : EntryFlags
  content : List UInt8

namespace ArchiveEntry

/-- The name, with stray bytes replaced. -/
def name (e : ArchiveEntry) : String := String.ofList (Text.ofBytes e.nameBytes)

/-- Is this a directory, by its attributes or by its name? -/
def isDir (e : ArchiveEntry) : Bool := e.flags.directory || Text.endsWith "/" e.name

/-- Is the name perhaps not UTF-8? Plain characters need no mark; stray bytes prove it. -/
def isForeign (e : ArchiveEntry) : Bool :=
  let cs := Text.decode e.nameBytes
  let plain := fun (c : Char) => ' ' ≤ c && c ≤ '}' && c != '\\'
  if cs.any Option.isNone then true
  else if cs.all fun c => (c.map plain).getD false then false
  else !e.flags.marked

end ArchiveEntry

namespace Archive

/-- Does a name stay within the directory it is unpacked into? Both kinds of slashes divide components. -/
def isSafe (name : String) : Bool :=
  !Text.startsWith "/" name && !Text.startsWith "\\" name &&
    !(Text.splitAt '/' (Text.replace "\\" "/" name)).contains ".."

/-- The files under a prefix in natural order, or the first name that is not safe. -/
def files (es : List ArchiveEntry) (start : String) : Except String (List ArchiveEntry) :=
  match es.find? fun e => !isSafe e.name with
  | some e => .error e.name
  | none =>
    .ok (naturalSort ArchiveEntry.name
      (es.filter fun e => !e.isDir && Text.startsWith start e.name))

/-- The wording for an entry that is not safe. -/
def escapeMessage (name : String) : String :=
  "zip entry " ++ Text.quote name ++ ": unsafe path (absolute or contains path traversal)"

end Archive

end DiagramMarkup.Files
