import MidiScore.Note.PropertyList
import MidiScore.Word

/-!
# Notes

A note is a name with properties; one name is kept for rests.  What a note means
in time, loudness and pitch follows from its properties alone.

Properties are counted in words, and so many of them can stand on a note that the
count starts over.  Velocities are computed in words as well and may not fit them;
lengths always do.
-/

namespace MidiScore

-- Powers are those of core, also where algebra is in scope.
attribute [local instance (high)] instPowNat

/-- A named note with its properties. -/
structure Note where
  name : Char
  properties : PropertyList
  deriving Repr, DecidableEq

namespace Note

/-- The name of a rest. -/
def restName : Char := '-'

/-- Velocity that an accent adds. -/
def accentVelocity : Int := 5

/-- Velocity that a marcato adds. -/
def marcatoVelocity : Int := 10

/-- Velocity that a ghost takes away. -/
def ghostVelocity : Int := 5

/-- A checked note. -/
def ofList (name : Char) (properties : List Property) : Except Error Note :=
  (PropertyList.ofList properties).map (⟨name, ·⟩)

/-- A quarter note without properties. -/
def plain (name : Char) : Note := ⟨name, .empty⟩

/-- Whether the note is silent. -/
def isRest (note : Note) : Bool :=
  note.name == restName

/-- A length with `dots`: every dot adds half of what was added before, rounded
down. -/
def dotted (length : Nat) : (dots : Nat) → Nat
  | 0 => length
  | dots + 1 => length + dotted (length / 2) dots

/-- Ticks until the next note.  A division by `d` puts `d` notes in the time of
two. -/
def length (note : Note) : Nat :=
  let total :=
    dotted (ticksPerWhole / note.properties.value.toNat) (note.properties.count .dot).toNat
  match note.properties.tuplet? with
  | some division => total * 2 / division.toNat
  | none => total

/-- The divisor that staccato marks put under the sounding length, a number of
32 bits; zero when they are too many for it. -/
def truncation (note : Note) : Nat :=
  let marks := (note.properties.count .staccato).toNat
  if marks < 32 then 2 ^ marks else 0

/-- Ticks until the note is released, at least one. -/
def soundingLength (note : Note) : Nat :=
  if note.truncation = 0 then 1 else max 1 (note.length / note.truncation)

/-- How many marks of a kind the note has: their count, read as a word with a sign. -/
def marks (note : Note) (kind : Property.Kind) : Int :=
  (note.properties.count kind).toInt32.toInt

/-- Semitones that the accidentals add. -/
def pitchShift (note : Note) : Int :=
  note.marks .sharp - note.marks .flat

/-- What the dynamics make of the velocity `base`. -/
def dynamics? (note : Note) (base : UInt8) : Option Int32 := do
  let accents ← signedWord? (note.marks .accent * accentVelocity)
  let raised ← signedWord? (base.toNat + accents.toInt)
  let marcatos ← signedWord? (note.marks .marcato * marcatoVelocity)
  let stressed ← signedWord? (raised.toInt + marcatos.toInt)
  let ghosts ← signedWord? (note.marks .ghost * ghostVelocity)
  signedWord? (stressed.toInt - ghosts.toInt)

/-- Velocity after dynamics, starting from `base` and held between 0 and 127. -/
def velocity? (note : Note) (base : UInt8) : Option UInt8 :=
  (note.dynamics? base).map fun wanted => (max 0 (min 127 wanted.toInt)).toNat.toUInt8

/-- Whether the note is never released. -/
def ringsOut (note : Note) : Bool :=
  note.properties.has .letRing

/-- The name followed by the marks of the properties. -/
def render (note : Note) : String :=
  note.name.toString ++ note.properties.render

end Note

end MidiScore
