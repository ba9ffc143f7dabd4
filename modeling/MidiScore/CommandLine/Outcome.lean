import MidiScore.CommandLine.Directory
import MidiScore.CommandLine.Invocation
import MidiScore.Config.Text
import MidiScore.Interchange.Score
import MidiScore.MidiFile.Writer

/-!
# Outcomes of invocations

What an invocation prints and writes, given the files that it may read.  Session
defaults are read first, then the score.
-/

namespace MidiScore.CommandLine

/-- The content of a file by its path, or why it cannot be read. -/
abbrev Files : Type := String → Except String String

/-- What an invocation that succeeds prints and writes. -/
structure Outcome where
  /-- The text for standard output. -/
  printed : String
  /-- A path and the bytes to write there. -/
  written : Option (String × List UInt8)
  deriving Repr, DecidableEq

/-- Why an invocation fails. -/
inductive Failure where
  | unreadableConfig (path reason : String)
  | config (error : Config.Error)
  | unreadable (path reason : String)
  | malformed (path : String)
  | score (error : ExportError)
  | unwritable (path reason : String)
  /-- There are no ports to play to. -/
  | noPorts
  deriving Repr, DecidableEq

/-- The message for a reader. -/
def Failure.message : Failure → String
  | .unreadableConfig path reason => s!"{Config.Error.heading}: {path}: {reason}"
  | .config error => error.message
  | .unreadable path reason => s!"Error reading file '{path}': {reason}"
  | .malformed path => s!"Error parsing '{path}'"
  | .score error => s!"Compilation error: {error.message}"
  | .unwritable path reason => s!"Error writing to '{path}': {reason}"
  | .noPorts => "balafon was built without MIDI output, rebuild with --features midi-out"

/-- The session defaults that an invocation names. -/
def loadConfig (files : Files) : Option String → Except Failure Config
  | none => .ok .standard
  | some path => do
      let text ← (files path).mapError (.unreadableConfig path)
      (Config.ofText text).mapError .config

/-- The score in a file. -/
def loadScore (files : Files) (path : String) : Except Failure (List Declaration) := do
  let text ← (files path).mapError (.unreadable path)
  (Declaration.listOfText text).mapError fun _ => .malformed path

/-- Lines, each with its end. -/
def lines (content : List String) : String :=
  String.join (content.map (· ++ "\n"))

/-- Print the bars of a score. -/
def printBars (config : Config) (score : List Declaration) : Except ExportError Outcome :=
  match compile config score with
  | .ok bars => .ok ⟨lines (bars.map Bar.render), none⟩
  | .error error => .error (.score error)

/-- Print the timed events of a score. -/
def printEvents (config : Config) (score : List Declaration) : Except ExportError Outcome :=
  match sequence config score with
  | .ok events => .ok ⟨lines (events.map TimedEvent.render), none⟩
  | .error error => .error (.score error)

/-- Write the MIDI file of a score to a path. -/
def writeFile (output : String) (config : Config) (score : List Declaration) :
    Except ExportError Outcome :=
  (exportFile config score).map fun file => ⟨"", some (output, file.bytes)⟩

namespace Command

/-- What a command prints and writes. -/
def run (files : Files) (config : Config) : Command → Except Failure Outcome
  | .compile input => do (printBars config (← loadScore files input)).mapError .score
  | .sequence input => do (printEvents config (← loadScore files input)).mapError .score
  | .smf input output => do
      (writeFile output config (← loadScore files input)).mapError .score
  | .play input _ => do
      let _ ← loadScore files input
      throw .noPorts
  | .listPorts => .error .noPorts

end Command

namespace Invocation

/-- The paths of the files that an invocation reads. -/
def paths (invocation : Invocation) : List String :=
  invocation.config.toList ++
    match invocation.command with
    | .compile input | .sequence input | .smf input _ | .play input _ => [input]
    | .listPorts => []

/-- What an invocation prints and writes. -/
def run (files : Files) (invocation : Invocation) : Except Failure Outcome := do
  invocation.command.run files (← loadConfig files invocation.config)

/-- What an invocation prints in a directory, and the directory that it leaves. -/
def runIn (directory : Directory) (invocation : Invocation) :
    Except Failure (String × Directory) := do
  let files (path : String) : Except String String :=
    (directory.readText path).mapError Refusal.message
  let outcome ← invocation.run files
  match outcome.written with
  | none => return (outcome.printed, directory)
  | some (path, bytes) =>
      let written ← (directory.write path bytes).mapError fun refusal =>
        Failure.unwritable path refusal.message
      return (outcome.printed, written)

end Invocation

end MidiScore.CommandLine
