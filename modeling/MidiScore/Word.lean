/-!
# Words

Numbers that are computed in words of 32 or 64 bits.  One that does not fit its word has no
result: whatever a machine makes of it, nothing here goes on with it.
-/

namespace MidiScore

/-- A number as a word of 32 bits, if it fits. -/
def word? (value : Nat) : Option UInt32 :=
  if value < UInt32.size then some value.toUInt32 else none

/-- A number as a word of 32 bits with a sign, if it fits. -/
def signedWord? (value : Int) : Option Int32 :=
  if Int32.minValue.toInt ≤ value ∧ value ≤ Int32.maxValue.toInt then some (.ofInt value) else none

/-- A number as a word of 64 bits with a sign, if it fits. -/
def longWord? (value : Int) : Option Int64 :=
  if Int64.minValue.toInt ≤ value ∧ value ≤ Int64.maxValue.toInt then some (.ofInt value) else none

theorem exists_word? {value : Nat} (fits : value < 4294967296) :
    ∃ word, word? value = some word ∧ word.toNat = value :=
  ⟨_, if_pos fits, Nat.mod_eq_of_lt fits⟩

theorem word?_eq_some_iff {value : Nat} {word : UInt32} :
    word? value = some word ↔ word.toNat = value := by
  constructor
  · intro found
    rw [word?] at found
    split at found
    · rename_i fits
      cases found
      exact Nat.mod_eq_of_lt fits
    · contradiction
  · rintro rfl
    rcases exists_word? word.toNat_lt with ⟨other, found, same⟩
    rw [found, UInt32.toNat_inj.mp same]

theorem word?_eq_none_iff {value : Nat} : word? value = none ↔ 4294967296 ≤ value := by
  simp [word?, UInt32.size]

theorem signedWord?_eq_some_iff {value : Int} {word : Int32} :
    signedWord? value = some word ↔ word.toInt = value := by
  constructor
  · intro found
    rw [signedWord?] at found
    split at found
    · rename_i fits
      cases found
      exact Int32.toInt_ofInt_of_le fits.1 (Int.lt_add_one_of_le fits.2)
    · contradiction
  · rintro rfl
    rw [signedWord?, if_pos ⟨word.minValue_le_toInt, word.toInt_le⟩, Int32.ofInt_toInt]

theorem exists_longWord? {value : Int} (positive : 0 ≤ value)
    (fits : value < 9223372036854775808) :
    ∃ word, longWord? value = some word ∧ word.toInt = value := by
  have least : Int64.minValue.toInt ≤ value := Int.le_trans (by decide) positive
  exact ⟨_, if_pos ⟨least, Int.le_of_lt_add_one fits⟩, Int64.toInt_ofInt_of_le least fits⟩

theorem longWord?_eq_some_iff {value : Int} {word : Int64} :
    longWord? value = some word ↔ word.toInt = value := by
  constructor
  · intro found
    rw [longWord?] at found
    split at found
    · rename_i fits
      cases found
      exact Int64.toInt_ofInt_of_le fits.1 (Int.lt_add_one_of_le fits.2)
    · contradiction
  · rintro rfl
    rw [longWord?, if_pos ⟨word.minValue_le_toInt, word.toInt_le⟩, Int64.ofInt_toInt]

end MidiScore
