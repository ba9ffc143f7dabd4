import MidiScore.Proofs.Note.Length
import MidiScore.Session.Draft

/-!
# The events of a note list

`Note.Sequence` derives the events of notes that follow one another: a rest only
moves the position, any other note is resolved and struck.  The derivations that end
within the words of a cursor are exactly the successful evaluations,
`sequenceEvents_eq_ok_iff`.

`Note.reach` is the tick at which the last note of a list falls silent.  It bounds
every event of the list and is itself bounded by the length of the list.
-/

namespace MidiScore

theorem bind_eq_ok_iff {ε α β : Type} {first : Except ε α} {next : α → Except ε β} {result : β} :
    (first >>= next) = .ok result ↔ ∃ middle, first = .ok middle ∧ next middle = .ok result := by
  cases first <;> simp [bind, Except.bind]

theorem map_eq_ok_iff {ε α β : Type} {outcome : Except ε α} {apply : α → β} {result : β} :
    outcome.map apply = .ok result ↔ ∃ value, outcome = .ok value ∧ apply value = result := by
  cases outcome <;> simp [Except.map]

theorem mapError_eq_ok_iff {ε ε' α : Type} {outcome : Except ε α} {rename : ε → ε'} {result : α} :
    outcome.mapError rename = .ok result ↔ outcome = .ok result := by
  cases outcome with
  | error error =>
      change Except.error (rename error) = .ok result ↔ _
      simp
  | ok value =>
      change Except.ok value = .ok result ↔ _
      simp

/-- A fold that can fail does so at the first item for which its function fails. -/
theorem foldlM_eq_error_iff {ε α β : Type} {apply : β → α → Except ε β} {start : β}
    {list : List α} {error : ε} :
    list.foldlM apply start = .error error ↔
      ∃ front item rest reached, list = front ++ item :: rest ∧
        front.foldlM apply start = .ok reached ∧ apply reached item = .error error := by
  induction list generalizing start with
  | nil => simp [pure, Except.pure]
  | cons first others ih =>
      rw [List.foldlM_cons]
      cases applied : apply start first with
      | error found =>
          constructor
          · rintro ⟨⟩
            exact ⟨[], first, others, start, rfl, rfl, applied⟩
          · rintro ⟨front, item, rest, reached, split, before, failed⟩
            cases front with
            | nil =>
                cases split
                cases before
                exact applied.symm.trans failed
            | cons head tail =>
                cases split
                rw [List.foldlM_cons, applied] at before
                contradiction
      | ok next =>
          refine (@ih next).trans ?_
          constructor
          · rintro ⟨front, item, rest, reached, rfl, before, failed⟩
            refine ⟨first :: front, item, rest, reached, rfl, ?_, failed⟩
            rw [List.foldlM_cons, applied]
            exact before
          · rintro ⟨front, item, rest, reached, split, before, failed⟩
            cases front with
            | nil =>
                cases split
                cases before
                rw [applied] at failed
                contradiction
            | cons head tail =>
                cases split
                rw [List.foldlM_cons, applied] at before
                exact ⟨tail, item, rest, reached, rfl, before, failed⟩

/-- The tick of its bar at which an event is over. -/
def Event.reach (event : Event) : Nat :=
  event.position + event.duration

namespace Note

/-- Ticks that notes take one after another. -/
def totalLength (notes : List Note) : Nat :=
  (notes.map length).sum

@[simp]
theorem totalLength_nil : totalLength [] = 0 := rfl

@[simp]
theorem totalLength_cons (note : Note) (rest : List Note) :
    totalLength (note :: rest) = note.length + totalLength rest := by
  simp [totalLength]

theorem totalLength_append (first second : List Note) :
    totalLength (first ++ second) = totalLength first + totalLength second := by
  simp [totalLength]

/-- Any note takes up time. -/
theorem totalLength_pos_iff {notes : List Note} : 0 < totalLength notes ↔ notes ≠ [] := by
  cases notes with
  | nil => simp
  | cons note rest =>
      have long := note.twelve_le_length
      simp only [totalLength_cons, ne_eq, reduceCtorEq, not_false_eq_true, iff_true]
      omega

/-- A cursor that starts with the bar is ahead of it behind any note. -/
theorem decide_cursor_pos {notes : List Note} {cursor : UInt32}
    (reached : cursor.toNat = totalLength notes) : decide (0 < cursor) = !notes.isEmpty := by
  have moved : 0 < cursor ↔ notes ≠ [] := by
    rw [← totalLength_pos_iff, ← reached]
    exact UInt32.lt_iff_toNat_lt
  cases notes <;> simpa using moved

/-- The tick at which the last of some notes falls silent, the first one standing at
`position`. -/
def reach (position : Nat) : List Note → Nat
  | [] => 0
  | note :: rest =>
      if note.isRest then reach (position + note.length) rest
      else max (position + note.soundingLength) (reach (position + note.length) rest)

/-- The events of notes one after another from a position. -/
inductive Sequence (keys : KeyMap) (scale : Scale) (scope : Scope) :
    Nat → List Note → List Event → Prop where
  | nil (position : Nat) : Sequence keys scale scope position [] []
  | rest {position : Nat} {note : Note} {notes : List Note} {events : List Event}
      (silent : note.isRest = true)
      (later : Sequence keys scale scope (position + note.length) notes events) :
      Sequence keys scale scope position (note :: notes) events
  | note {position : Nat} {note : Note} {notes : List Note} {events : List Event}
      {key velocity : UInt8} (sounding : note.isRest = false)
      (resolved : note.resolve keys scale scope.channel = .ok key)
      (dynamic : note.velocity? scope.velocity = some velocity)
      (later : Sequence keys scale scope (position + note.length) notes events) :
      Sequence keys scale scope position (note :: notes)
        (note.events key velocity scope.channel position ++ events)

section

variable {keys : KeyMap} {scale : Scale} {scope : Scope} {position : Nat} {cursor last : UInt32}
  {notes : List Note} {events : List Event}

theorem eventsAt_of_isRest {note : Note} (silent : note.isRest = true) :
    note.eventsAt keys scale scope cursor = .ok [] :=
  if_pos silent

theorem eventsAt_eq_ok_iff {note : Note} (sounding : note.isRest = false) :
    note.eventsAt keys scale scope cursor = .ok events ↔
      ∃ key velocity, note.resolve keys scale scope.channel = .ok key ∧
        note.velocity? scope.velocity = some velocity ∧
        note.events key velocity scope.channel cursor.toNat = events := by
  rw [eventsAt, if_neg (Bool.eq_false_iff.mp sounding)]
  simp only [bind_eq_ok_iff, Error.orOverflow_eq_ok_iff, pure, Except.pure, Except.ok.injEq,
    exists_and_left]

theorem moveCursor_eq_ok_iff {note : Note} {next : UInt32} :
    note.moveCursor cursor = .ok next ↔ next.toNat = cursor.toNat + note.length := by
  rw [moveCursor, Error.orOverflow_eq_ok_iff, word?_eq_some_iff]

theorem sequenceEvents_cons_eq_ok_iff {note : Note} :
    sequenceEvents keys scale scope cursor (note :: notes) = .ok (events, last) ↔
      ∃ here next later, note.eventsAt keys scale scope cursor = .ok here ∧
        next.toNat = cursor.toNat + note.length ∧
        sequenceEvents keys scale scope next notes = .ok (later, last) ∧
        here ++ later = events := by
  rw [sequenceEvents]
  simp only [bind_eq_ok_iff, moveCursor_eq_ok_iff, Prod.exists, pure, Except.pure,
    Except.ok.injEq, Prod.mk.injEq]
  constructor
  · rintro ⟨here, evaluated, next, moved, later, _, evaluatedRest, joined, rfl⟩
    exact ⟨here, next, later, evaluated, moved, evaluatedRest, joined⟩
  · rintro ⟨here, next, later, evaluated, moved, evaluatedRest, joined⟩
    exact ⟨here, evaluated, next, moved, later, last, evaluatedRest, joined, rfl⟩

/-- The events of notes are those of a derivation, and the cursor ends behind all of them. -/
theorem sequenceEvents_eq_ok_iff :
    sequenceEvents keys scale scope cursor notes = .ok (events, last) ↔
      Sequence keys scale scope cursor.toNat notes events ∧
        last.toNat = cursor.toNat + totalLength notes := by
  induction notes generalizing cursor events with
  | nil =>
      constructor
      · intro evaluated
        cases evaluated
        exact ⟨.nil _, rfl⟩
      · rintro ⟨derived, reached⟩
        cases derived
        cases UInt32.toNat_inj.mp reached
        rfl
  | cons note rest ih =>
      rw [sequenceEvents_cons_eq_ok_iff, totalLength_cons]
      constructor
      · rintro ⟨here, next, later, evaluated, moved, evaluatedRest, rfl⟩
        rcases ih.mp evaluatedRest with ⟨derived, reached⟩
        rw [moved] at derived reached
        refine ⟨?_, by omega⟩
        cases silent : note.isRest with
        | true =>
            rw [eventsAt_of_isRest silent] at evaluated
            cases evaluated
            exact .rest silent derived
        | false =>
            rcases (eventsAt_eq_ok_iff silent).mp evaluated with
              ⟨key, velocity, resolved, dynamic, rfl⟩
            exact .note silent resolved dynamic derived
      · rintro ⟨derived, reached⟩
        -- the cursor after the note is no further than the one after the list
        rcases @exists_word? (cursor.toNat + note.length) (by have := last.toNat_lt; omega) with
          ⟨next, -, moved⟩
        cases derived with
        | rest silent later =>
            rw [← moved] at later
            exact ⟨[], next, events, eventsAt_of_isRest silent, moved,
              ih.mpr ⟨later, by omega⟩, rfl⟩
        | @note _ _ _ later key velocity sounding resolved dynamic derived =>
            rw [← moved] at derived
            exact ⟨_, next, later,
              (eventsAt_eq_ok_iff sounding).mpr ⟨key, velocity, resolved, dynamic, rfl⟩, moved,
              ih.mpr ⟨derived, by omega⟩, rfl⟩

/-- The events of a sounding note: it is struck, and possibly released. -/
theorem mem_events {note : Note} {key velocity channel : UInt8} {event : Event} :
    event ∈ note.events key velocity channel position ↔
      event = ⟨.voice channel (.noteOn key velocity), position, note.soundingLength, channel⟩ ∨
      note.ringsOut = false ∧ event = ⟨.voice channel (.noteOff key),
        position + note.soundingLength, 0, channel⟩ := by
  rw [events]
  cases note.ringsOut <;> simp

theorem forall_mem_events {note : Note} {key velocity channel : UInt8} {bound : Nat} :
    (∀ event ∈ note.events key velocity channel position, event.reach ≤ bound) ↔
      position + note.soundingLength ≤ bound := by
  constructor
  · intro bounded
    exact bounded _ (mem_events.mpr (.inl rfl))
  · intro bounded event member
    rcases mem_events.mp member with rfl | ⟨_, rfl⟩ <;> exact bounded

/-- A tick bounds all events of a note list exactly when it bounds its reach. -/
theorem Sequence.forall_reach_le_iff (derived : Sequence keys scale scope position notes events)
    {bound : Nat} :
    (∀ event ∈ events, event.reach ≤ bound) ↔ reach position notes ≤ bound := by
  induction derived with
  | nil position => simp [reach]
  | rest silent _ ih => rw [reach, if_pos silent, ih]
  | note sounding _ _ _ ih =>
      rw [reach, if_neg (Bool.eq_false_iff.mp sounding), Nat.max_le, ← ih,
        ← forall_mem_events, List.forall_mem_append]

/-- No note sounds beyond the end of its list. -/
theorem reach_le (position : Nat) (notes : List Note) :
    reach position notes ≤ position + totalLength notes := by
  induction notes generalizing position with
  | nil => exact Nat.zero_le _
  | cons note rest ih =>
      have later := ih (position + note.length)
      have sounding := note.soundingLength_le_length
      rw [reach, totalLength_cons]
      split <;> omega

/-- A list with events has one that lasts. -/
theorem Sequence.exists_duration_pos (derived : Sequence keys scale scope position notes events)
    (sounds : events ≠ []) : ∃ event ∈ events, 0 < event.duration := by
  induction derived with
  | nil position => contradiction
  | rest _ _ ih => exact ih sounds
  | @note _ note =>
      exact ⟨_, List.mem_append_left _ (mem_events.mpr (.inl rfl)), note.soundingLength_pos⟩

/-- Notes set no tempo. -/
theorem Sequence.tempo?_eq_none (derived : Sequence keys scale scope position notes events) :
    ∀ event ∈ events, event.message.tempo? = none := by
  induction derived with
  | nil position => simp
  | rest _ _ ih => exact ih
  | note _ _ _ _ ih =>
      intro event member
      rcases List.mem_append.mp member with here | later
      · rcases mem_events.mp here with rfl | ⟨_, rfl⟩ <;> rfl
      · exact ih event later

end

end Note

end MidiScore
