import MidiScore.Binary64

/-!
# Ticks, note values and clock time

Musical time is counted in ticks, 960 to the quarter note.  A note value names
how many equal parts of a whole note a note takes.  Ticks become nanoseconds at
a tempo in quarter notes per minute; this is the only inexact step, and it is
made in the binary64 format.
-/

namespace MidiScore

/-- Ticks in a quarter note. -/
def ticksPerQuarter : Nat := 960

/-- Ticks in a whole note. -/
def ticksPerWhole : Nat := 4 * ticksPerQuarter

/-- The parts into which a note value may divide the whole note. -/
def noteValues : List Nat := [1, 2, 4, 8, 16, 32, 64, 128]

/-- A note value is a power of two from 1 to 128. -/
def isNoteValue (value : Nat) : Bool :=
  noteValues.contains value

/-- Nanoseconds in a minute. -/
def nanosPerMinute : Nat := 60000000000

/-- Length of `ticks` at `tempo` quarter notes per minute, in nanoseconds.
Both products and the quotient are rounded to binary64, and the quotient then
to a whole number. -/
def nanosOfTicks (tempo : Binary64) (ticks : Nat) : Int :=
  ((Binary64.ofNat ticks * Binary64.ofNat nanosPerMinute) /
    (tempo * Binary64.ofNat ticksPerQuarter)).toInt64

/-- The time that `ticks` take at `tempo`.  A negative tempo gives no time. -/
def durationOfTicks (tempo : Binary64) (ticks : Nat) : Nat :=
  (nanosOfTicks tempo ticks).toNat

end MidiScore
