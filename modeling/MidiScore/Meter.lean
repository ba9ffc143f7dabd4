import MidiScore.TimeBase

/-!
# Meters

A meter says how many parts of which note value fill a bar.  Meters that a score
may set are bounded; a meter handed in with a bar may be anything, also one whose
lower number is zero and which therefore has no capacity.
-/

namespace MidiScore

/-- The two numbers of a time signature. -/
structure Meter where
  numerator : UInt8
  denominator : UInt8
  deriving Repr, DecidableEq

namespace Meter

/-- Four quarters. -/
def common : Meter := ⟨4, 4⟩

/-- Most beats in a bar. -/
def maxBeats : Nat := 128

/-- A score may set the meter: 1 to 128 beats of a note value. -/
def isValid (meter : Meter) : Bool :=
  1 ≤ meter.numerator.toNat && meter.numerator.toNat ≤ maxBeats &&
    isNoteValue meter.denominator.toNat

/-- Whether the beats of the meter have a length. -/
def isMeasurable (meter : Meter) : Bool :=
  meter.denominator != 0

/-- Ticks that fill a bar of a measurable meter. -/
def capacity (meter : Meter) : Nat :=
  meter.numerator.toNat * (ticksPerWhole / meter.denominator.toNat)

/-- The two numbers with a stroke between them. -/
def render (meter : Meter) : String :=
  s!"{meter.numerator.toNat}/{meter.denominator.toNat}"

end Meter

end MidiScore
