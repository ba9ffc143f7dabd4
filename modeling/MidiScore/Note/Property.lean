/-!
# Note properties

A property modifies one note.  Properties come in ten kinds, listed here in the
order in which a note shows them.  Five kinds are unique and occur at most once
in a note; the other five add up.
-/

namespace MidiScore

namespace Property

/-- What a property acts on, in canonical order. -/
inductive Kind where
  | sharp | flat | accent | marcato | ghost | staccato | value | dot | tuplet | letRing
  deriving Repr, DecidableEq

namespace Kind

/-- All kinds, in canonical order. -/
def all : List Kind :=
  [.sharp, .flat, .accent, .marcato, .ghost, .staccato, .value, .dot, .tuplet, .letRing]

/-- Place in the canonical order. -/
def rank : Kind → Nat
  | .sharp => 0
  | .flat => 1
  | .accent => 2
  | .marcato => 3
  | .ghost => 4
  | .staccato => 5
  | .value => 6
  | .dot => 7
  | .tuplet => 8
  | .letRing => 9

/-- A unique kind occurs at most once in a note. -/
def isUnique : Kind → Bool
  | .sharp | .flat | .value | .tuplet | .letRing => true
  | .accent | .marcato | .ghost | .staccato | .dot => false

/-- Name of the kind in messages. -/
def name : Kind → String
  | .sharp => "sharp"
  | .flat => "flat"
  | .accent => "accent"
  | .marcato => "marcato"
  | .ghost => "ghost"
  | .staccato => "staccato"
  | .value => "value"
  | .dot => "dot"
  | .tuplet => "tuplet"
  | .letRing => "let ring"

/-- The rank of a kind is its place among all kinds. -/
theorem getElem?_all_rank (kind : Kind) : all[kind.rank]? = some kind := by
  cases kind <;> rfl

theorem rank_injective {first second : Kind} (equal : first.rank = second.rank) :
    first = second := by
  have found := getElem?_all_rank first
  rw [equal, getElem?_all_rank] at found
  exact (Option.some.inj found).symm

end Kind

end Property

/-- A single modifier of a note. -/
inductive Property where
  | sharp
  | flat
  | accent
  | marcato
  | ghost
  | staccato
  /-- The note value: 1 is a whole note, 4 a quarter. -/
  | value (parts : UInt8)
  | dot
  /-- An irregular division: 3 is a triplet, 5 a quintuplet. -/
  | tuplet (division : UInt8)
  | letRing
  deriving Repr, DecidableEq

namespace Property

/-- The kind of a property. -/
def kind : Property → Kind
  | .sharp => .sharp
  | .flat => .flat
  | .accent => .accent
  | .marcato => .marcato
  | .ghost => .ghost
  | .staccato => .staccato
  | .value _ => .value
  | .dot => .dot
  | .tuplet _ => .tuplet
  | .letRing => .letRing

/-- The mark that stands for the property in a note. -/
def render : Property → String
  | .sharp => "#"
  | .flat => "$"
  | .accent => ">"
  | .marcato => "^"
  | .ghost => ")"
  | .staccato => "`"
  | .value parts => toString parts.toNat
  | .dot => "."
  | .tuplet division => "/" ++ toString division.toNat
  | .letRing => "*"

end Property

end MidiScore
