import Mathlib.Algebra.Order.Ring.Nat
import MidiScore.Note.Basic

/-!
# Bounds on note lengths

The literals of a property list are checked, so a note value is one of the eight
powers of two and an irregular division is 3 or 5.  No note is shorter than 12
ticks, and none sounds longer than it takes.
-/

namespace MidiScore

theorem isNoteValue_iff_mem {value : Nat} : isNoteValue value = true ↔ value ∈ noteValues := by
  simp [isNoteValue]

/-- Note values are the powers of two up to 128. -/
theorem isNoteValue_iff {value : Nat} :
    isNoteValue value = true ↔ ∃ power ≤ 7, value = 2 ^ power := by
  constructor
  · intro legal
    have all : ∀ value ∈ noteValues, ∃ power ≤ 7, value = 2 ^ power := by decide
    exact all value (isNoteValue_iff_mem.mp legal)
  · rintro ⟨power, small, rfl⟩
    have all : ∀ power ≤ 7, isNoteValue (2 ^ power) = true := by decide
    exact all power small

namespace PropertyList

theorem isNoteValue_of_mem {list : PropertyList} {parts : UInt8}
    (member : .value parts ∈ list.toList) : isNoteValue parts.toNat = true := by
  have legal := list.admissible.literals _ member
  rw [Property.literalFault?] at legal
  split at legal
  · assumption
  · contradiction

theorem isNoteValue_value (list : PropertyList) : isNoteValue list.value.toNat = true := by
  rw [value]
  cases given : list.value? with
  | none => rfl
  | some parts =>
      rcases List.exists_of_findSome?_eq_some given with ⟨property, member, reads⟩
      cases property with
      | value other =>
          cases reads
          exact isNoteValue_of_mem member
      | _ => contradiction

theorem tuplet?_eq_some {list : PropertyList} {division : UInt8}
    (given : list.tuplet? = some division) : division = 3 ∨ division = 5 := by
  rcases List.exists_of_findSome?_eq_some given with ⟨property, member, reads⟩
  cases property with
  | tuplet other =>
      cases reads
      have legal := list.admissible.literals _ member
      rw [Property.literalFault?] at legal
      split at legal
      · assumption
      · contradiction
  | _ => contradiction

end PropertyList

namespace Note

theorem le_dotted (length dots : Nat) : length ≤ dotted length dots := by
  cases dots with
  | zero => exact Nat.le_refl length
  | succ dots => exact Nat.le_add_right length _

/-- The shortest undotted note is a 128th. -/
theorem thirty_le_base {value : Nat} (legal : isNoteValue value = true) :
    30 ≤ ticksPerWhole / value := by
  have all : ∀ value ∈ noteValues, 30 ≤ ticksPerWhole / value := by decide
  exact all value (isNoteValue_iff_mem.mp legal)

/-- The shortest note is a 128th of a quintuplet. -/
theorem twelve_le_length (note : Note) : 12 ≤ note.length := by
  have base := thirty_le_base note.properties.isNoteValue_value
  have total := Nat.le_trans base (le_dotted _ (note.properties.count .dot).toNat)
  rw [length]
  cases given : note.properties.tuplet? with
  | none => exact Nat.le_trans (by decide) total
  | some division =>
      rcases PropertyList.tuplet?_eq_some given with rfl | rfl
      · change 12 ≤ dotted _ _ * 2 / 3
        omega
      · change 12 ≤ dotted _ _ * 2 / 5
        omega

theorem soundingLength_pos (note : Note) : 0 < note.soundingLength := by
  rw [soundingLength]
  split
  · exact Nat.one_pos
  · exact Nat.le_max_left 1 _

theorem soundingLength_le_length (note : Note) : note.soundingLength ≤ note.length := by
  have positive : 1 ≤ note.length := Nat.le_trans (by decide) note.twelve_le_length
  rw [soundingLength]
  split
  · exact positive
  · exact Nat.max_le.mpr ⟨positive, Nat.div_le_self _ _⟩

end Note

end MidiScore
