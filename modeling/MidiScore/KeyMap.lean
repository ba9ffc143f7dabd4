/-!
# Key maps

A key map binds note names to keys, separately for every channel.  A binding is
never replaced.  Bindings are kept in strictly increasing order of channel and
then of the note's code point, so maps with the same bindings are equal.
-/

namespace MidiScore

namespace KeyMap

/-- A note name bound to a key on a channel. -/
structure Binding where
  channel : UInt8
  note : Char
  key : UInt8
  deriving Repr, DecidableEq

/-- Place of a note name on a channel in the order of bindings. -/
def place (channel : UInt8) (note : Char) : Nat :=
  channel.toNat * 0x110000 + note.toNat

/-- Place of a binding in the order. -/
def Binding.place (binding : Binding) : Nat :=
  KeyMap.place binding.channel binding.note

theorem toNat_lt_limit (note : Char) : note.toNat < 0x110000 := by
  have valid : note.toNat.isValidChar := note.valid
  rcases valid with h | ⟨_, h⟩
  · omega
  · exact h

/-- Different names or channels have different places. -/
theorem place_inj {channel other : UInt8} {note name : Char} :
    place channel note = place other name ↔ channel = other ∧ note = name := by
  constructor
  · intro equal
    have first := toNat_lt_limit note
    have second := toNat_lt_limit name
    simp only [place] at equal
    exact ⟨UInt8.toNat_inj.mp (by omega), Char.toNat_inj.mp (by omega)⟩
  · rintro ⟨rfl, rfl⟩
    rfl

/-- Bindings with one more, put where its place belongs. -/
def insertSorted (binding : Binding) : List Binding → List Binding
  | [] => [binding]
  | first :: rest =>
      if binding.place < first.place then binding :: first :: rest
      else first :: insertSorted binding rest

theorem mem_insertSorted {binding other : Binding} {bindings : List Binding} :
    other ∈ insertSorted binding bindings ↔ other = binding ∨ other ∈ bindings := by
  induction bindings with
  | nil => simp [insertSorted]
  | cons first rest ih =>
      rw [insertSorted]
      split
      · simp
      · simp [ih, or_left_comm]

theorem pairwise_insertSorted {binding : Binding} {bindings : List Binding}
    (sorted : bindings.Pairwise fun first second => first.place < second.place)
    (fresh : ∀ other ∈ bindings, other.place ≠ binding.place) :
    (insertSorted binding bindings).Pairwise fun first second => first.place < second.place := by
  induction bindings with
  | nil => simp [insertSorted]
  | cons first rest ih =>
      obtain ⟨before, sortedRest⟩ := List.pairwise_cons.mp sorted
      rw [insertSorted]
      split
      · rename_i smaller
        refine List.pairwise_cons.mpr ⟨?_, sorted⟩
        intro other member
        rcases List.mem_cons.mp member with rfl | member
        · exact smaller
        · exact Nat.lt_trans smaller (before other member)
      · rename_i notSmaller
        refine List.pairwise_cons.mpr ⟨?_, ih sortedRest fun other member =>
          fresh other (List.mem_cons_of_mem _ member)⟩
        intro other member
        rcases mem_insertSorted.mp member with rfl | member
        · exact Nat.lt_of_le_of_ne (Nat.le_of_not_lt notSmaller) (fresh first List.mem_cons_self)
        · exact before other member

end KeyMap

/-- Keys bound to note names, one at most for a name on a channel. -/
structure KeyMap where
  toList : List KeyMap.Binding
  sorted : toList.Pairwise fun first second => first.place < second.place

namespace KeyMap

theorem ext_toList {first second : KeyMap} (equal : first.toList = second.toList) :
    first = second := by
  cases first
  cases second
  cases equal
  rfl

instance : DecidableEq KeyMap := fun first second =>
  if equal : first.toList = second.toList then .isTrue (ext_toList equal)
  else .isFalse fun same => equal (congrArg toList same)

instance : Repr KeyMap := ⟨fun map precedence => reprPrec map.toList precedence⟩

/-- No bindings. -/
def empty : KeyMap := ⟨[], .nil⟩

instance : Inhabited KeyMap := ⟨empty⟩

/-- The key that is bound to a note name on a channel. -/
def get? (map : KeyMap) (channel : UInt8) (note : Char) : Option UInt8 :=
  (map.toList.find? fun binding => binding.place == place channel note).map (·.key)

/-- How many bindings there are. -/
def size (map : KeyMap) : Nat :=
  map.toList.length

/-- Whether nothing is bound. -/
def isEmpty (map : KeyMap) : Bool :=
  map.toList.isEmpty

/-- The map with one more binding, unless the name is bound on the channel. -/
def bind? (map : KeyMap) (channel : UInt8) (note : Char) (key : UInt8) : Option KeyMap :=
  if fresh : ∀ other ∈ map.toList, other.place ≠ place channel note then
    some ⟨insertSorted ⟨channel, note, key⟩ map.toList, pairwise_insertSorted map.sorted fresh⟩
  else
    none

/-- Bind a note name on a channel, unless it is bound there: whether it was free, and the map
afterwards. -/
def set (map : KeyMap) (channel : UInt8) (note : Char) (key : UInt8) : Bool × KeyMap :=
  match map.bind? channel note key with
  | some next => (true, next)
  | none => (false, map)

end KeyMap

end MidiScore
