import DiagramMarkup.Compile.Root
import DiagramMarkup.Settings.Load

/-!
# Command line

`transform` compiles the document on standard input and writes the drawing to standard output; options may follow as
pairs of a name and a value. `dumpconfig` writes the settings.
-/

namespace DiagramMarkup.Main

/-- Options from pairs of a name and a value. -/
def readOptions (o : Options) : List String → Except String Options
  | [] => .ok o
  | [name] => .error s!"option '{name}' needs a value"
  | name :: value :: rest =>
    match o.set name value with
    | .ok o => readOptions o rest
    | .error f => .error f.message

/-- The drawing of a document, under options given as text. -/
def draw (args : List String) (source : String) : Except String String :=
  match readOptions {} args with
  | .error e => .error e
  | .ok o => (compileText o source).mapError (·.message)

/-- How the program is called. -/
def usage : String := "usage: transform [NAME VALUE]... | dumpconfig"

/-- Everything that is left on a stream. -/
partial def readAll (stream : IO.FS.Stream) (before : String) : IO String := do
  let line ← stream.getLine
  if line.isEmpty then return before else readAll stream (before ++ line)

end DiagramMarkup.Main

/-- Run one command. The exit code tells whether it succeeded. -/
def main (args : List String) : IO UInt32 := do
  match args with
  | "transform" :: rest =>
    match DiagramMarkup.Main.draw rest (← DiagramMarkup.Main.readAll (← IO.getStdin) "") with
    | .ok out =>
      (← IO.getStdout).putStr out
      return 0
    | .error e =>
      (← IO.getStderr).putStrLn e
      return 1
  | ["dumpconfig"] =>
    (← IO.getStdout).putStr DiagramMarkup.Settings.default.dump
    return 0
  | _ =>
    (← IO.getStderr).putStrLn DiagramMarkup.Main.usage
    return 2
