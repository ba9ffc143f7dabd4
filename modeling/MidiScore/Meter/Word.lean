import MidiScore.Meter.Text
import MidiScore.Word

/-!
# Meters as text, read into words of 32 bits

The two numbers of a meter can also be read into words, one digit after the other, and be
narrowed to bytes once they are known to be in bounds.  Digits that outgrow a word are no
number at all then, as if they were other characters.
-/

namespace MidiScore

namespace Text

/-- The word with one more decimal digit behind it. -/
def extend? (word : UInt32) (c : Char) : Option UInt32 := do
  let shifted ← word? (word.toNat * 10)
  let digit ← (digitValue? c).filter (· < 10)
  word? (shifted.toNat + digit)

/-- The word that one or more decimal digits spell out. -/
def decimalWord? (cs : List Char) : Option UInt32 :=
  if cs.isEmpty then none else cs.foldlM extend? 0

end Text

namespace Meter

variable {α : Type}

/-- What a reader of digits makes of one side of the stroke. -/
def partBy (read : List Char → Option α) (cs : List Char) : Option α :=
  match Text.trim cs with
  | '+' :: digits => read digits
  | digits => read digits

/-- The meter that a text stands for, if a score may set it. -/
def ofTextWord? (text : String) : Option Meter := do
  let (before, after) ← cut? text.toList
  let numerator ← partBy Text.decimalWord? before
  let denominator ← partBy Text.decimalWord? after
  if 1 ≤ numerator ∧ numerator.toNat ≤ maxBeats ∧ isNoteValue denominator.toNat then
    some ⟨numerator.toUInt8, denominator.toUInt8⟩
  else none

end Meter

end MidiScore
