import Mathlib.Algebra.Order.Ring.Nat
import MidiScore.Proofs.Note.Sequence

/-!
# Notes and the messages that sound them

A passage is messages at ticks.  It sounds some notes if its strikes and releases add up to
theirs: up to every tick no key is released more often than it was struck before, and of
all strikes of a key as many stay without release as there are notes of that key which are
left to ring.  This is said in numbers alone, so that it is kept when passages are joined,
moved or put in another order, and does not depend on which release belongs to which strike.

The events of a note list sound the notes of the list, `Note.Sequence.sounds`.
-/

namespace MidiScore

/-- A note that sounds: its key, and whether it is left to ring. -/
structure Sounding where
  channel : UInt8
  key : UInt8
  rings : Bool
  deriving Repr, DecidableEq

namespace Message

/-- Whether the message strikes a key. -/
def strikes (channel key : UInt8) : Message → Bool
  | .voice number (.noteOn struck _) => number == channel && struck == key
  | _ => false

/-- Whether the message releases a key. -/
def releases (channel key : UInt8) : Message → Bool
  | .voice number (.noteOff released) => number == channel && released == key
  | _ => false

@[simp]
theorem strikes_noteOn (channel key number struck velocity : UInt8) :
    (voice number (.noteOn struck velocity)).strikes channel key =
      (number == channel && struck == key) :=
  rfl

@[simp]
theorem strikes_noteOff (channel key number released : UInt8) :
    (voice number (.noteOff released)).strikes channel key = false :=
  rfl

@[simp]
theorem releases_noteOn (channel key number struck velocity : UInt8) :
    (voice number (.noteOn struck velocity)).releases channel key = false :=
  rfl

@[simp]
theorem releases_noteOff (channel key number released : UInt8) :
    (voice number (.noteOff released)).releases channel key =
      (number == channel && released == key) :=
  rfl

end Message

/-- Messages at ticks. -/
abbrev Passage : Type := List (Nat × Message)

namespace Passage

/-- How often a key is struck before a tick. -/
def struckBefore (passage : Passage) (channel key : UInt8) (tick : Nat) : Nat :=
  passage.countP fun entry => entry.2.strikes channel key && entry.1 < tick

/-- How often a key is released up to a tick. -/
def releasedUpTo (passage : Passage) (channel key : UInt8) (tick : Nat) : Nat :=
  passage.countP fun entry => entry.2.releases channel key && entry.1 ≤ tick

/-- The passage some ticks later. -/
def delay (ticks : Nat) (passage : Passage) : Passage :=
  passage.map fun entry => (ticks + entry.1, entry.2)

/-- The strikes and releases of a passage are those of some notes. -/
structure Sounds (passage : Passage) (notes : List Sounding) : Prop where
  struckFirst : ∀ channel key tick,
    passage.releasedUpTo channel key tick ≤ passage.struckBefore channel key tick
  ringing : ∀ channel key, passage.countP (·.2.strikes channel key) =
    passage.countP (·.2.releases channel key) + notes.count ⟨channel, key, true⟩

namespace Sounds

/-- A passage without strikes and releases sounds no note. -/
theorem of_still {passage : Passage}
    (still : ∀ entry ∈ passage, ∀ channel key,
      entry.2.strikes channel key = false ∧ entry.2.releases channel key = false) :
    passage.Sounds [] where
  struckFirst channel key tick := by
    have none : passage.releasedUpTo channel key tick = 0 := by
      refine List.countP_eq_zero.mpr fun entry member => ?_
      simp [(still entry member channel key).2]
    exact none ▸ Nat.zero_le _
  ringing channel key := by
    have noStrike : passage.countP (·.2.strikes channel key) = 0 :=
      List.countP_eq_zero.mpr fun entry member => by simp [(still entry member channel key).1]
    have noRelease : passage.countP (·.2.releases channel key) = 0 :=
      List.countP_eq_zero.mpr fun entry member => by simp [(still entry member channel key).2]
    rw [noStrike, noRelease, List.count_nil]

theorem append {first second : Passage} {notes later : List Sounding}
    (sounds : first.Sounds notes) (soundsLater : second.Sounds later) :
    (first ++ second : Passage).Sounds (notes ++ later) where
  struckFirst channel key tick := by
    rw [releasedUpTo, struckBefore, List.countP_append, List.countP_append]
    exact Nat.add_le_add (sounds.struckFirst channel key tick)
      (soundsLater.struckFirst channel key tick)
  ringing channel key := by
    rw [List.countP_append, List.countP_append, List.count_append, sounds.ringing,
      soundsLater.ringing]
    omega

theorem perm {passage other : Passage} {notes : List Sounding} (sounds : passage.Sounds notes)
    (same : passage.Perm other) : other.Sounds notes where
  struckFirst channel key tick := by
    rw [releasedUpTo, struckBefore, ← same.countP_eq, ← same.countP_eq]
    exact sounds.struckFirst channel key tick
  ringing channel key := by
    rw [← same.countP_eq, ← same.countP_eq]
    exact sounds.ringing channel key

theorem delay {passage : Passage} {notes : List Sounding} (sounds : passage.Sounds notes)
    (ticks : Nat) : (passage.delay ticks).Sounds notes where
  struckFirst channel key tick := by
    simp only [releasedUpTo, struckBefore, Passage.delay, List.countP_map, Function.comp_def]
    by_cases early : tick < ticks
    · -- nothing is heard before the passage begins
      have none : ∀ entry : Nat × Message, ¬ticks + entry.1 ≤ tick := by
        intro entry
        omega
      simp [none]
    · have upTo : ∀ place, ticks + place ≤ tick ↔ place ≤ tick - ticks := by omega
      have before : ∀ place, ticks + place < tick ↔ place < tick - ticks := by omega
      simp only [upTo, before]
      exact sounds.struckFirst channel key (tick - ticks)
  ringing channel key := by
    simp only [Passage.delay, List.countP_map, Function.comp_def]
    exact sounds.ringing channel key

/-- A strike alone is left to ring. -/
theorem struck (channel key velocity : UInt8) (position : Nat) :
    Sounds [(position, .voice channel (.noteOn key velocity))] [⟨channel, key, true⟩] where
  struckFirst := by simp [releasedUpTo]
  ringing := by simp [List.countP_singleton, List.count_singleton]

/-- A strike that is released later is not left to ring. -/
theorem struck_released (channel key velocity : UInt8) {position later : Nat}
    (lasts : position < later) :
    Sounds [(position, .voice channel (.noteOn key velocity)),
      (later, .voice channel (.noteOff key))] [⟨channel, key, false⟩] where
  struckFirst other released tick := by
    by_cases sounded : later ≤ tick
    · have before : position < tick := Nat.lt_of_lt_of_le lasts sounded
      simp [releasedUpTo, struckBefore, List.countP_cons, sounded, before]
    · simp [releasedUpTo, sounded]
  ringing := by simp [List.countP_cons]

end Sounds

end Passage

/-- The message of an event at its position. -/
def Event.entry (event : Event) : Nat × Message :=
  (event.position, event.message)

namespace Note

/-- The notes of a list that sound, each with the key it resolves to. -/
def soundings (keys : KeyMap) (scale : Scale) (channel : UInt8) (notes : List Note) :
    List Sounding :=
  notes.filterMap fun note =>
    if note.isRest then none
    else (note.resolve keys scale channel).toOption.map (⟨channel, ·, note.ringsOut⟩)

/-- A note is released after it was struck, unless it is left to ring. -/
theorem sounds_events (note : Note) (key velocity channel : UInt8) (position : Nat) :
    Passage.Sounds ((note.events key velocity channel position).map Event.entry)
      [⟨channel, key, note.ringsOut⟩] := by
  have lasts := note.soundingLength_pos
  rw [events]
  cases note.ringsOut with
  | true => exact .struck _ _ _ _
  | false => exact .struck_released _ _ _ (Nat.lt_add_of_pos_right lasts)

/-- The events of a note list sound the notes of the list. -/
theorem Sequence.sounds {keys : KeyMap} {scale : Scale} {scope : Scope} {position : Nat}
    {notes : List Note} {events : List Event}
    (derived : Sequence keys scale scope position notes events) :
    Passage.Sounds (events.map Event.entry) (soundings keys scale scope.channel notes) := by
  induction derived with
  | nil position => exact .of_still (by simp)
  | rest silent _ ih =>
      rw [soundings, List.filterMap_cons, if_pos silent]
      exact ih
  | @note position note _ _ key velocity sounding resolved _ _ ih =>
      have here : (if note.isRest then none
          else (note.resolve keys scale scope.channel).toOption.map
            (Sounding.mk scope.channel · note.ringsOut)) =
          some ⟨scope.channel, key, note.ringsOut⟩ := by
        simp [sounding, resolved, Except.toOption]
      rw [soundings, List.filterMap_cons, here, List.map_append]
      exact (note.sounds_events key velocity scope.channel position).append ih

end Note

end MidiScore
