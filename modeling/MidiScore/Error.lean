import MidiScore.Meter
import MidiScore.Note.Property

/-!
# What can be wrong with a score

Each error names its cause with the values that a reader of the message needs.
The wording stands in one place.
-/

namespace MidiScore

/-- A number in a score that has bounds. -/
inductive Quantity where
  | key | tempo | velocity | channel | program | control | controlValue
  deriving Repr, DecidableEq

namespace Quantity

/-- Name of the quantity in messages. -/
def name : Quantity → String
  | .key => "key"
  | .tempo => "tempo"
  | .velocity => "velocity"
  | .channel => "channel"
  | .program => "program"
  | .control => "control"
  | .controlValue => "control value"

/-- Least legal number. -/
def least : Quantity → Int
  | .tempo => 1
  | _ => 0

/-- Greatest legal number. -/
def greatest : Quantity → Int
  | .tempo => 65535
  | .channel => 15
  | _ => 127

/-- Whether a number is legal for the quantity. -/
def admits (quantity : Quantity) (value : Int) : Bool :=
  quantity.least ≤ value && value ≤ quantity.greatest

/-- The complaint about a number outside of the bounds. -/
def complaint (quantity : Quantity) (value : Int) : String :=
  s!"{quantity.name} must be in range [{quantity.least}, {quantity.greatest}], got: {value}"

end Quantity

/-- Why a note or a declaration is refused. -/
inductive Error where
  | outOfRange (quantity : Quantity) (value : Int)
  | invalidNoteValue (value : UInt8)
  | invalidTuplet (division : UInt8)
  | invalidMeter (meter : Meter)
  | unknownScale (name : String)
  | forbiddenInBar (command : String)
  | unknownBar (name : String)
  | undefinedNote (note : Char) (channel : UInt8)
  | duplicateAssignment (note : Char) (key channel : UInt8)
  | duplicateBar (name : String)
  | duplicateProperty (kind : Property.Kind)
  | conflictingProperties (first second : Property.Kind)
  | accidentalOnBlackKey (note : Char) (key channel : UInt8)
  | emptyBar (name : String)
  | barOverflow (excess : Nat) (meter : Meter)
  /-- No fault of the score: a number on the way to its meaning does not fit a word. -/
  | overflow
  deriving Repr, DecidableEq

namespace Error

/-- The message for a reader. -/
def message : Error → String
  | .outOfRange quantity value => quantity.complaint value
  | .invalidNoteValue value =>
      s!"note value must be a power of 2 in the range [1, 128], got: {value.toNat}"
  | .invalidTuplet division => s!"tuplet division must be 3 or 5, got: {division.toNat}"
  | .invalidMeter meter =>
      s!"invalid time signature {meter.render}: numerator must be in range [1, 128] " ++
        "and denominator a power of 2 in the range [1, 128]"
  | .unknownScale name => s!"unknown scale '{name}'"
  | .forbiddenInBar command => s!"command '{command}' not allowed in bar"
  | .unknownBar name => s!"unknown bar '{name}'"
  | .undefinedNote note channel => s!"note '{note}' undefined on channel {channel.toNat}"
  | .duplicateAssignment note key channel =>
      s!"note '{note}' already assigned to key '{key.toNat}' on channel '{channel.toNat}'"
  | .duplicateBar name => s!"bar '{name}' already defined"
  | .duplicateProperty kind => s!"duplicate note property '{kind.name}'"
  | .conflictingProperties first second =>
      s!"conflicting note properties '{first.name}' and '{second.name}'"
  | .accidentalOnBlackKey note key channel =>
      s!"cannot use sharp/flat on note '{note}' assigned to key '{key.toNat}' " ++
        s!"on channel '{channel.toNat}'"
  | .emptyBar name => s!"invalid empty bar '{name}'"
  | .barOverflow excess meter =>
      s!"bar too long by {excess} ticks, timesig is {meter.render}"
  | .overflow => "a number does not fit its word"

/-- What was computed in words, if all of it fits. -/
def orOverflow {α : Type} : Option α → Except Error α
  | some value => .ok value
  | none => .error .overflow

theorem orOverflow_eq_ok_iff {α : Type} {result : Option α} {value : α} :
    orOverflow result = .ok value ↔ result = some value := by
  cases result <;> simp [orOverflow]

theorem orOverflow_eq_error_iff {α : Type} {result : Option α} {error : Error} :
    orOverflow result = .error error ↔ result = none ∧ error = .overflow := by
  cases result <;> simp [orOverflow, eq_comm]

end Error

end MidiScore
