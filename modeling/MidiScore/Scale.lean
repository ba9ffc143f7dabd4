import MidiScore.Note.Basic
import MidiScore.Text.Blank

/-!
# Scales

A scale raises or lowers some letters without marks on the notes: as many letters
in the order of sharps as it has fifths upwards, or in the order of flats
downwards.  The keys of a keyboard are named by letter within the octave.
-/

namespace MidiScore

/-- A key signature: fifths above C count sharps, fifths below count flats. -/
structure Scale where
  fifths : Int8
  minor : Bool
  deriving Repr, DecidableEq

namespace Scale

/-- Neither sharps nor flats. -/
def cMajor : Scale := ⟨0, false⟩

/-- The scales with the two names of each. -/
def table : List (String × String × Scale) :=
  [ ("C", "CMaj", ⟨0, false⟩),
    ("G", "GMaj", ⟨1, false⟩),
    ("D", "DMaj", ⟨2, false⟩),
    ("A", "AMaj", ⟨3, false⟩),
    ("E", "EMaj", ⟨4, false⟩),
    ("B", "BMaj", ⟨5, false⟩),
    ("F#", "FsharpMaj", ⟨6, false⟩),
    ("F", "FMaj", ⟨-1, false⟩),
    ("Bb", "BbMaj", ⟨-2, false⟩),
    ("Eb", "EbMaj", ⟨-3, false⟩),
    ("Ab", "AbMaj", ⟨-4, false⟩),
    ("Db", "DbMaj", ⟨-5, false⟩),
    ("Gb", "GbMaj", ⟨-6, false⟩),
    ("Am", "AMin", ⟨0, true⟩),
    ("Em", "EMin", ⟨1, true⟩),
    ("Bm", "BMin", ⟨2, true⟩),
    ("F#m", "FsharpMin", ⟨3, true⟩),
    ("C#m", "CsharpMin", ⟨4, true⟩),
    ("G#m", "GsharpMin", ⟨5, true⟩),
    ("D#m", "DsharpMin", ⟨6, true⟩),
    ("Dm", "DMin", ⟨-1, true⟩),
    ("Gm", "GMin", ⟨-2, true⟩),
    ("Cm", "CMin", ⟨-3, true⟩),
    ("Fm", "FMin", ⟨-4, true⟩),
    ("Bbm", "BbMin", ⟨-5, true⟩),
    ("Ebm", "EbMin", ⟨-6, true⟩) ]

/-- The scale of a name, blanks around it set aside. -/
def ofName? (name : String) : Option Scale :=
  let trimmed := String.ofList (Text.trim name.toList)
  (table.find? fun entry => entry.1 == trimmed || entry.2.1 == trimmed).map (·.2.2)

/-- The pitch classes of an octave, by number of semitones above C. -/
def pitchNames : List String :=
  ["C", "C#", "D", "D#", "E", "F", "F#", "G", "G#", "A", "A#", "B"]

/-- The pitch class of a key. -/
def pitchClass (key : UInt8) : Nat :=
  key.toNat % 12

/-- The name of the pitch class of a key. -/
def pitchName (key : UInt8) : String :=
  pitchNames.getD (pitchClass key) ""

/-- Whether the pitch class of a key has no letter of its own. -/
def isBlackKey (key : UInt8) : Bool :=
  [1, 3, 6, 8, 10].contains (pitchClass key)

/-- The pitch classes F C G D A E, in the order in which scales sharpen them. -/
def sharpOrder : List Nat := [5, 0, 7, 2, 9, 4]

/-- The pitch classes B E A D G C, in the order in which scales flatten them. -/
def flatOrder : List Nat := [11, 4, 9, 2, 7, 0]

/-- Whether the scale raises the letter of a key. -/
def sharpens (scale : Scale) (key : UInt8) : Bool :=
  (sharpOrder.take scale.fifths.toInt.toNat).contains (pitchClass key)

/-- Whether the scale lowers the letter of a key. -/
def flattens (scale : Scale) (key : UInt8) : Bool :=
  (flatOrder.take (-scale.fifths.toInt).toNat).contains (pitchClass key)

/-- The key that sounds when `note` stands for `key`.  An accidental on the note
replaces the opposite alteration of the scale, and does not add to the same one.
The result may lie outside of the keyboard. -/
def apply (scale : Scale) (key : UInt8) (note : Note) : Int :=
  let isSharp := note.properties.has .sharp
  let isFlat := note.properties.has .flat
  let raised := (scale.sharpens key && !isFlat) || isSharp
  let lowered := (scale.flattens key && !isSharp) || isFlat
  key.toNat + (if raised then 1 else 0) - (if lowered then 1 else 0)

end Scale

end MidiScore
