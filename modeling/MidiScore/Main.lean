import MidiScore.CommandLine.Outcome

/-!
# The command line

Reads the files that an invocation names, and prints and writes its outcome.
-/

namespace MidiScore.CommandLine

/-- The exit code when an invocation fails. -/
def failureCode : UInt32 := 1

/-- The exit code when arguments make no sense. -/
def usageCode : UInt32 := 2

/-- The line that is printed when arguments make no sense. -/
def usage : String :=
  let commands := "|".intercalate Command.names
  s!"usage: [--config FILE] [-v] {commands} [FILE] [-o FILE] [-p PORT]"

/-- The system's number for a path that goes on after a file. -/
def notDirectoryCode : UInt32 := 20

/-- Why the system refused an access. -/
def reason : IO.Error → String
  | .noFileOrDirectory _ _ _ => Refusal.missing.message
  | .inappropriateType _ code _ =>
      (if code = notDirectoryCode then Refusal.notDirectory else .isDirectory).message
  | error => toString error

/-- Read a file as text. -/
def readText (path : String) : IO (Except String String) := do
  try
    return .ok (← IO.FS.readFile path)
  catch error =>
    return .error (reason error)

/-- Read the files of some paths. -/
def readFiles (paths : List String) : IO Files := do
  let contents ← paths.mapM fun path => return (path, ← readText path)
  return fun path => (contents.lookup path).getD (.error "not read")

/-- Print and write an outcome. -/
def commit (outcome : Outcome) : IO UInt32 := do
  IO.print outcome.printed
  match outcome.written with
  | none => return 0
  | some (path, bytes) =>
      try
        IO.FS.writeBinFile path ⟨bytes.toArray⟩
        IO.eprintln s!"Wrote MIDI file to {path}"
        return 0
      catch error =>
        IO.eprintln (Failure.unwritable path (reason error)).message
        return failureCode

/-- Carry out what arguments ask for. -/
def execute (arguments : List String) : IO UInt32 := do
  match Invocation.ofArguments? arguments with
  | none =>
      IO.eprintln usage
      return usageCode
  | some invocation =>
      match invocation.run (← readFiles invocation.paths) with
      | .ok outcome => commit outcome
      | .error failure =>
          IO.eprintln failure.message
          return failureCode

end MidiScore.CommandLine

def main (arguments : List String) : IO UInt32 :=
  MidiScore.CommandLine.execute arguments
