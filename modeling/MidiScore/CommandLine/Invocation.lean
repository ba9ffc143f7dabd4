import MidiScore.CommandLine.Arguments

/-!
# Invocations

What the arguments of a command line ask for.  A command comes with its own
arguments; those for all commands may stand on either side of its name, and count
behind it.
-/

namespace MidiScore.CommandLine

/-- What is to be done. -/
inductive Command where
  /-- Print the bars of a score. -/
  | compile (input : String)
  /-- Print the timed events of a score. -/
  | sequence (input : String)
  /-- Write a MIDI file of a score. -/
  | smf (input output : String)
  /-- Play a score to a port. -/
  | play (input : String) (port : Option String)
  /-- List the ports. -/
  | listPorts
  deriving Repr, DecidableEq

/-- A command with what holds for all commands. -/
structure Invocation where
  /-- The file with session defaults. -/
  config : Option String
  /-- How often more log output was asked for. -/
  verbosity : Nat
  command : Command
  deriving Repr, DecidableEq

namespace Command

/-- The names of the commands. -/
def names : List String := ["compile", "sequence", "smf", "play", "list-ports"]

/-- What the command of a name takes. -/
def grammar (name : String) : Grammar :=
  match name with
  | "smf" => ⟨[.config, .output], true, []⟩
  | "play" => ⟨[.config, .port], true, []⟩
  | "list-ports" => ⟨[.config], false, []⟩
  | _ => ⟨[.config], true, []⟩

/-- The command of a name with its arguments. -/
def ofGiven? (name : String) (given : Given) : Option Command :=
  match name with
  | "compile" => given.input.map .compile
  | "sequence" => given.input.map .sequence
  | "smf" => do some (.smf (← given.input) (← given.value? .output))
  | "play" => given.input.map (.play · (given.value? .port))
  | "list-ports" => some .listPorts
  | _ => none

end Command

namespace Invocation

/-- What may stand in front of a command. -/
def grammar : Grammar := ⟨[.config], false, Command.names⟩

/-- What arguments ask for, if they make sense. -/
def ofArguments? (arguments : List String) : Option Invocation := do
  let (before, rest) ← read? grammar .nothing none false arguments
  match rest with
  | [] => none
  | name :: rest =>
      let (behind, _) ← read? (Command.grammar name) .nothing none false rest
      let command ← Command.ofGiven? name behind
      some {
        config := (behind.value? .config).or (before.value? .config)
        verbosity := max before.verbosity behind.verbosity
        command := command }

end Invocation

end MidiScore.CommandLine
