import MidiScore.Meter
import MidiScore.Text.Blank
import MidiScore.Text.Numeral

/-!
# Meters as text

A meter is written as two decimal numbers with a stroke between them.  Blanks may
stand around a number and a plus sign in front of it.
-/

namespace MidiScore.Meter

/-- The number that is written on one side of the stroke. -/
def part? (cs : List Char) : Option Nat :=
  match Text.trim cs with
  | '+' :: digits => Text.natural? 10 digits
  | digits => Text.natural? 10 digits

/-- The parts of a text before and after its first stroke. -/
def cut? (cs : List Char) : Option (List Char × List Char) :=
  match cs.dropWhile (· != '/') with
  | _ :: after => some (cs.takeWhile (· != '/'), after)
  | [] => none

/-- The meter that a text stands for, if a score may set it. -/
def ofText? (text : String) : Option Meter := do
  let (before, after) ← cut? text.toList
  let numerator ← part? before
  let denominator ← part? after
  if 1 ≤ numerator ∧ numerator ≤ maxBeats ∧ isNoteValue denominator then
    some ⟨numerator.toUInt8, denominator.toUInt8⟩
  else none

end MidiScore.Meter
