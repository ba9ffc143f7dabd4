import MidiScore.Datum.Basic
import MidiScore.Error

/-!
# Readings

A reading turns data into values and stops at the first fault.  It follows the
references that it comes across, and spends one of an allowance on each, so that a
short text whose references lead to further references does not keep it for long.
-/

namespace MidiScore.Datum

/-- The formats of documents. -/
inductive Format where
  /-- A document is known as a whole before any of it is read. -/
  | json
  /-- A document is read piece by piece. -/
  | yaml
  deriving Repr, DecidableEq

/-- Why a datum does not become a value. -/
inductive Fault where
  | malformed
  | invalid (error : Error)
  /-- The allowance of references was spent. -/
  | exhausted
  deriving Repr, DecidableEq

/-- What becomes of data, given how many references may be followed. -/
abbrev Reading : Type → Type :=
  StateT Nat (Except Fault)

namespace Reading

/-- Spend one reference. -/
def follow : Reading Unit := do
  match ← get with
  | 0 => throw .exhausted
  | left + 1 => set left

/-- The result of a reading with an allowance of references. -/
def within {α : Type} (allowance : Nat) (reading : Reading α) : Except Fault α :=
  reading.run' allowance

/-- The result of reading a document without references. -/
def result {α : Type} (reading : Reading α) : Except Fault α :=
  reading.within 0

end Reading

/-- What a datum stands for. -/
def reach : Datum → Reading Datum
  | .reference target => do
      Reading.follow
      return target
  | datum => return datum

end MidiScore.Datum
