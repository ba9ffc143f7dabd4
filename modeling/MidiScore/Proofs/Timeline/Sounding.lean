import MidiScore.Proofs.Bar.Sounding
import MidiScore.Proofs.Flush.Groups
import MidiScore.Proofs.Timeline.Words

/-!
# The notes that a score sounds

A score sounds the notes of the bars that it puts out, a named bar as often as it is played.
Merging bars, moving them to their ticks and sorting leave the strikes and releases at each
tick as they are, so that in the end they are still those of the notes.
-/

namespace MidiScore

/-- The message of a timed event at its tick. -/
def TimedEvent.entry (event : TimedEvent) : Nat × Message :=
  (event.tick, event.message)

/-- The messages of bars one after another, the first bar starting at a tick. -/
def Bar.passageFrom (tick : Nat) : List Bar → Passage
  | [] => []
  | bar :: rest => bar.passage.delay tick ++ passageFrom (tick + bar.capacity) rest

/-! ## From the buffer to the timeline -/

namespace Bar

theorem perm_passage_ofEvents (meter : Meter) (events : List Event) :
    (ofEvents meter events).passage.Perm (events.map Event.entry) :=
  (List.mergeSort_perm _ _).map _

/-- The bars of a flush sound the notes of the bars that waited. -/
theorem sounds_settle {waiting : List Event} {bars : List Bar} {before : List Sounding}
    {notes : List (List Sounding)} (sounds : Passage.Sounds (waiting.map Event.entry) before)
    (each : List.Forall₂ (fun here (bar : Bar) => bar.passage.Sounds here) notes bars)
    (ends : bars = [] → waiting = []) (tick : Nat) :
    (passageFrom tick (settle waiting bars)).Sounds (before ++ notes.flatten) := by
  induction each generalizing waiting before tick with
  | nil =>
      rw [ends rfl] at sounds
      simpa [settle, passageFrom] using sounds
  | @cons here bar later rest soundsHere _ ih =>
      have merged : (ofEvents bar.meter (waiting ++ bar.events)).passage.Sounds
          (before ++ here) := by
        apply (sounds.append soundsHere).perm
        rw [passage, ← List.map_append]
        exact (perm_passage_ofEvents _ _).symm
      rw [List.flatten_cons, ← List.append_assoc]
      cases zero : bar.isZeroDuration with
      | true =>
          cases rest with
          | nil =>
              obtain rfl : later = [] := by cases ‹List.Forall₂ _ later []›; rfl
              rw [settle_singleton_of_zero zero]
              simpa [passageFrom] using merged.delay tick
          | cons next others =>
              rw [settle_cons_cons_of_zero zero]
              exact ih (by simpa [passage] using sounds.append soundsHere)
                (absurd · (List.cons_ne_nil next others)) tick
      | false =>
          rw [settle_cons_of_lasting zero]
          exact (merged.delay tick).append (ih (.of_still (by simp)) (fun _ => rfl) _)

end Bar

namespace Clock

theorem map_entry_placeEvents (clock : Clock) (events : List Event) :
    (clock.placeEvents events).1.map TimedEvent.entry =
      Passage.delay clock.tick (events.map Event.entry) := by
  rw [Passage.delay, List.map_map]
  exact clock.map_placeEvents events

theorem map_entry_placeBars (clock : Clock) (bars : List Bar) :
    (clock.placeBars bars).1.map TimedEvent.entry = Bar.passageFrom clock.tick bars := by
  induction bars generalizing clock with
  | nil => rfl
  | cons bar rest ih =>
      rw [placeBars, List.map_append, ih, map_entry_placeEvents, tick_advance, tick_placeEvents]
      rfl

end Clock

theorem Timeline.perm_map_entry_ofBars (tempo : UInt16) (bars : List Bar) :
    ((ofBars tempo bars).map TimedEvent.entry).Perm (Bar.passageFrom 0 bars) := by
  have placed := (Clock.start tempo).map_entry_placeBars bars
  rw [Clock.start] at placed
  rw [← placed]
  exact (List.mergeSort_perm _ _).map _

/-- The events of a score sound the notes of the bars that it puts out. -/
theorem sounds_of_sequence {config : Config} {declarations : List Declaration}
    {events : List TimedEvent} (sequenced : sequence config declarations = .ok events) :
    Passage.Sounds (events.map TimedEvent.entry)
      (((Session.ofConfig config).context.putAfter [] declarations).flatMap
        Source.soundings) := by
  rcases exists_bars_of_sequence sequenced with ⟨bars, compiled, rfl⟩
  rcases Session.compile_eq_ok_iff.mp compiled with ⟨accepted, rfl⟩
  rcases evaluated : (Session.ofConfig config).evaluate declarations with ⟨session, outcome⟩
  obtain rfl : outcome = none := by simpa [evaluated] using accepted
  rcases Session.evaluate_eq_none_iff_run.mp evaluated with ⟨bars, ran, buffer_eq⟩
  obtain rfl : session.buffer = bars := buffer_eq
  have builds := (Session.isNamedBy_ofConfig config).run ran
  have each : List.Forall₂ (fun here (bar : Bar) => bar.passage.Sounds here)
      (((Session.ofConfig config).context.putAfter [] declarations).map Source.soundings)
      session.buffer := by
    rw [List.forall₂_map_left_iff]
    exact builds.imp fun _ _ built => built.sounds
  have settled := Bar.sounds_settle (.of_still (by simp)) each (fun _ => rfl) 0
  rw [List.nil_append, ← List.flatMap_def] at settled
  exact settled.perm (Timeline.perm_map_entry_ofBars config.tempo session.flush.1).symm

end MidiScore
