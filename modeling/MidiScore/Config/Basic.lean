import MidiScore.Meter

/-!
# Session defaults

What holds in a session before its first declaration, and which port it is to be
played to.
-/

namespace MidiScore

/-- The settings a session starts with. -/
structure Config where
  /-- Tempo in quarter notes per minute. -/
  tempo : UInt16
  velocity : UInt8
  meter : Meter
  /-- Output port, the first one when none is named. -/
  port : Option String
  deriving Repr, DecidableEq

namespace Config

/-- The settings of a session that is not configured. -/
def standard : Config where
  tempo := 120
  velocity := 100
  meter := .common
  port := none

end Config

end MidiScore
