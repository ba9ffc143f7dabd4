import MidiScore.Note.Basic
import MidiScore.Text.Numeral

/-!
# Reading notes

A note is written as its name and behind it one mark for each property.  Nothing stands
between two marks: a sign is one character long, and a number, for a note value or behind a
stroke for an irregular division, goes on as long as there are digits.
-/

namespace MidiScore

namespace Property

/-- The properties whose mark is a sign. -/
def signs : List Property :=
  [.sharp, .flat, .accent, .marcato, .ghost, .staccato, .dot, .letRing]

/-- The property that a sign stands for. -/
def ofSign? (sign : Char) : Option Property :=
  signs.find? (·.render.toList == [sign])

/-- The number of eight bits that the digits at the front spell out, and what follows them. -/
def readNumber (marks : List Char) : Option (UInt8 × List Char) := do
  let number ← Text.natural? 10 (marks.takeWhile (Text.isDigitOf 10))
  if number < 256 then some (number.toUInt8, marks.dropWhile (Text.isDigitOf 10)) else none

/-- The property in front, whose mark begins with the first character, and what follows its
mark. -/
def readFront (first : Char) (others : List Char) : Option (Property × List Char) :=
  if first = '/' then (readNumber others).map fun (division, rest) => (.tuplet division, rest)
  else if Text.isDigitOf 10 first then
    (readNumber (first :: others)).map fun (parts, rest) => (.value parts, rest)
  else (ofSign? first).map (·, others)

theorem eq_dropWhile_of_readNumber {marks rest : List Char} {number : UInt8}
    (found : readNumber marks = some (number, rest)) :
    rest = marks.dropWhile (Text.isDigitOf 10) := by
  rcases Option.bind_eq_some_iff.mp found with ⟨_, _, read⟩
  split at read
  · cases read
    rfl
  · contradiction

theorem length_le_of_readFront {first : Char} {others rest : List Char} {property : Property}
    (found : readFront first others = some (property, rest)) : rest.length ≤ others.length := by
  have shorter := (List.dropWhile_sublist (Text.isDigitOf 10) (l := others)).length_le
  rw [readFront] at found
  split at found
  · rcases Option.map_eq_some_iff.mp found with ⟨⟨_, after⟩, read, same⟩
    cases same
    rwa [eq_dropWhile_of_readNumber read]
  · split at found
    next digit =>
      rcases Option.map_eq_some_iff.mp found with ⟨⟨_, after⟩, read, same⟩
      cases same
      rwa [eq_dropWhile_of_readNumber read, List.dropWhile_cons_of_pos digit]
    next =>
      rcases Option.map_eq_some_iff.mp found with ⟨_, _, same⟩
      cases same
      exact Nat.le_refl _

/-- The properties whose marks a text consists of. -/
def readAll : List Char → Option (List Property)
  | [] => some []
  | first :: others =>
      match _ : readFront first others with
      | none => none
      | some (property, rest) => (readAll rest).map (property :: ·)
termination_by marks => marks.length
decreasing_by exact Nat.lt_succ_of_le (length_le_of_readFront ‹_›)

end Property

/-- The note that a text stands for. -/
def Note.ofText? (text : String) : Option Note :=
  match text.toList with
  | [] => none
  | name :: marks =>
      (Property.readAll marks).bind fun properties => (ofList name properties).toOption

end MidiScore
