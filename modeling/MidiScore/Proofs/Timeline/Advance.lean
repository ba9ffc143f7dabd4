import Mathlib.Algebra.Order.Ring.Int
import MidiScore.Playback.Player
import MidiScore.Proofs.Timeline.Words

/-!
# Time does not run backwards

Within a bar whose tempos stand at the start all events are timed by one tempo, so their
nanoseconds are in the order of their positions.  The next bar starts at the end of this one,
whatever tempo it brings: no event of a bar in order comes later than that.  So a timeline
hands out the events of such bars in order of nanoseconds too, although it sorts by ticks
alone, and the waits between them add up to the whole, `Timeline.flush_monotone_of_inOrder`.
-/

namespace MidiScore

/-- The events of a bar in order are so with its tempos at the start. -/
theorem Bar.InOrder.isOrdered {bar : Bar} (inOrder : bar.InOrder)
    (tempo : ∀ event ∈ bar.events, event.message.tempo?.isSome → event.position = 0) :
    Event.IsOrdered bar.events :=
  ⟨inOrder.sorted.imp decide_eq_true, tempo⟩

namespace Clock

/-- Events in order are put between the start of their bar and any tick behind them. -/
theorem nanos_bounds_of_mem_placeEvents {clock : Clock} {events : List Event} {ticks : Nat}
    (ordered : Event.IsOrdered events) (within : ∀ event ∈ events, event.position ≤ ticks)
    {timed : TimedEvent} (member : timed ∈ (clock.placeEvents events).1) :
    clock.nanos ≤ timed.nanos ∧
      timed.nanos ≤ ((clock.placeEvents events).2.advance ticks).nanos := by
  rw [placeEvents_eq ordered] at member ⊢
  rcases List.mem_map.mp member with ⟨event, inEvents, rfl⟩
  exact ⟨Int.le_add_of_nonneg_right (span_nonneg _ event.position),
    Int.add_le_add_left (span_mono _ (within event inEvents)) _⟩

theorem pairwise_nanos_placeEvents {clock : Clock} {events : List Event}
    (ordered : Event.IsOrdered events) :
    (clock.placeEvents events).1.Pairwise fun first second => first.nanos ≤ second.nanos := by
  rw [placeEvents_eq ordered, List.pairwise_map]
  refine ordered.sorted.imp fun before => ?_
  exact Int.add_le_add_left (span_mono _ (of_decide_eq_true before)) _

section

variable {bars : List Bar} (inOrder : ∀ bar ∈ bars, bar.InOrder)
  (ordered : ∀ bar ∈ bars, Event.IsOrdered bar.events)

include inOrder ordered

theorem nanos_le_of_mem_placeBars {clock : Clock} {timed : TimedEvent}
    (member : timed ∈ (clock.placeBars bars).1) : clock.nanos ≤ timed.nanos := by
  induction bars generalizing clock with
  | nil => contradiction
  | cons bar rest ih =>
      rcases List.forall_mem_cons.mp inOrder with ⟨inOrderHere, inOrderLater⟩
      rcases List.forall_mem_cons.mp ordered with ⟨orderedHere, orderedLater⟩
      rcases List.mem_append.mp member with here | later
      · exact (nanos_bounds_of_mem_placeEvents orderedHere inOrderHere.within here).1
      · have start := ih inOrderLater orderedLater later
        rw [placeEvents_eq orderedHere] at start
        exact (nanos_le_advance (clock.hearAll bar.events) bar.capacity).trans start

theorem pairwise_nanos_placeBars {clock : Clock} :
    (clock.placeBars bars).1.Pairwise fun first second => first.nanos ≤ second.nanos := by
  induction bars generalizing clock with
  | nil => exact .nil
  | cons bar rest ih =>
      rcases List.forall_mem_cons.mp inOrder with ⟨inOrderHere, inOrderLater⟩
      rcases List.forall_mem_cons.mp ordered with ⟨orderedHere, orderedLater⟩
      refine List.pairwise_append.mpr
        ⟨pairwise_nanos_placeEvents orderedHere, ih inOrderLater orderedLater, ?_⟩
      -- the end of this bar lies between its events and all later ones
      intro first here second later
      have ends := (nanos_bounds_of_mem_placeEvents orderedHere inOrderHere.within here).2
      exact ends.trans (nanos_le_of_mem_placeBars inOrderLater orderedLater later)

end

end Clock

/-! ## Waits -/

namespace Playback.Player

/-- The waits between events that follow one another, none counted as zero. -/
def delays (events : List TimedEvent) : List Nat :=
  events.zipWith (fun previous next => (delay? previous.nanos next.nanos).getD 0) events.tail

theorem getD_delay? {previous next : Int} (order : previous ≤ next) :
    (((delay? previous next).getD 0 : Nat) : Int) = next - previous := by
  rw [delay?]
  split
  · exact Int.toNat_of_nonneg (Int.sub_nonneg_of_le order)
  · rw [Option.getD_none]
    omega

/-- Where time does not fall, the waits make up the way from the first event to the last. -/
theorem sum_delays {events : List TimedEvent}
    (monotone : events.Pairwise fun first second => first.nanos ≤ second.nanos) :
    ∀ first ∈ events.head?, ∀ last ∈ events.getLast?,
      ((delays events).sum : Int) = last.nanos - first.nanos := by
  induction events with
  | nil => simp
  | cons first rest ih =>
      rcases List.pairwise_cons.mp monotone with ⟨least, later⟩
      cases rest with
      | nil => simp [delays]
      | cons second rest =>
          intro start isFirst last isLast
          obtain rfl := Option.some.inj isFirst
          have remaining := ih later second rfl last isLast
          have here := getD_delay? (least second List.mem_cons_self)
          have split : (delays (first :: second :: rest)).sum =
              (delay? first.nanos second.nanos).getD 0 + (delays (second :: rest)).sum := rfl
          rw [split]
          omega

end Playback.Player

/-! ## Whole timelines -/

/-- Of bars in order with their tempos at the start, what a timeline takes in it hands out
with ticks and nanoseconds that never fall, and the waits of a player between the events add
up to the time from the first one to the last.  At tempos of at least one quarter note in a
minute a timeline takes in such bars exactly if a word holds the sum of their capacities. -/
theorem Timeline.flush_monotone_of_inOrder (tempo : UInt16) {bars : List Bar}
    (measurable : ∀ bar ∈ bars, bar.meter.isMeasurable = true)
    (inOrder : ∀ bar ∈ bars, bar.InOrder)
    (tempoFirst : ∀ bar ∈ bars, ∀ event ∈ bar.events,
      event.message.tempo?.isSome → event.position = 0) :
    (0 < tempo.toNat → (∀ bar ∈ bars, ∀ event ∈ bar.events, ∀ bpm,
        event.message = .tempo bpm → 0 < bpm.toNat) →
      ((∃ timeline, (start tempo).add? bars = some timeline) ↔
        (bars.map (·.capacity)).sum < 4294967296)) ∧
    ∀ timeline, (start tempo).add? bars = some timeline →
      let events := timeline.flush.1
      events.map (·.message) = (bars.flatMap (·.events)).map (·.message) ∧
      (events.Pairwise fun first second => first.tick ≤ second.tick) ∧
      (events.Pairwise fun first second => first.nanos ≤ second.nanos) ∧
      ∀ first ∈ events.head?, ∀ last ∈ events.getLast?,
        ((Playback.Player.delays events).sum : Int) = last.nanos - first.nanos := by
  have valid : (start tempo).clock.IsValid := .start tempo
  constructor
  · intro positive positiveLater
    rw [exists_add?_iff valid, and_iff_right measurable]
    exact Clock.inWords_start_iff_of_within positive positiveLater
      fun bar member => (inOrder bar member).within
  · intro timeline added events
    obtain rfl := ((add?_eq_some_iff valid).mp added).2
    have placed : events = ((Clock.start tempo).placeBars bars).1 :=
      ofBars_eq_of_inOrder tempo inOrder
    have nanos : events.Pairwise fun first second => first.nanos ≤ second.nanos := by
      rw [placed]
      exact Clock.pairwise_nanos_placeBars inOrder fun bar member =>
        (inOrder bar member).isOrdered (tempoFirst bar member)
    exact ⟨placed ▸ Clock.map_message_placeBars _ bars, pairwise_ofBars tempo bars, nanos,
      Playback.Player.sum_delays nanos⟩

/-- A bar at 60 and one at 240 quarters a minute, with a note to the end of each: the waits
are the 4 seconds of the first bar and the 1 second of the other. -/
theorem Timeline.flush_monotone_of_inOrder_slower_faster :
    let slow : Bar := ⟨.common, [⟨.tempo 60, 0, 0, 0⟩, ⟨.voice 0 (.noteOn 60 100), 0, 3840, 0⟩,
      ⟨.voice 0 (.noteOff 60), 3840, 0, 0⟩]⟩
    let fast : Bar := ⟨.common, [⟨.tempo 240, 0, 0, 0⟩, ⟨.voice 0 (.noteOn 64 100), 0, 3840, 0⟩,
      ⟨.voice 0 (.noteOff 64), 3840, 0, 0⟩]⟩
    ∃ timeline, (start 120).add? [slow, fast] = some timeline ∧
      (timeline.flush.1.Pairwise fun first second => first.nanos ≤ second.nanos) ∧
      (Playback.Player.delays timeline.flush.1).sum = 5000000000 := by
  intro slow fast
  have inOrder : ∀ bar ∈ [slow, fast], bar.InOrder :=
    List.forall_mem_cons.mpr ⟨⟨by decide, by decide⟩,
      List.forall_mem_singleton.mpr ⟨by decide, by decide⟩⟩
  rcases flush_monotone_of_inOrder 120 (by decide) inOrder (by decide) with ⟨added_iff, all⟩
  rcases (added_iff (by decide) (by simp [slow, fast])).mpr (by decide) with ⟨timeline, added⟩
  rcases all timeline added with ⟨-, -, nanos, waits⟩
  refine ⟨timeline, added, nanos, ?_⟩
  obtain rfl := ((add?_eq_some_iff (.start 120)).mp added).2
  have placed : ((start 120).add [slow, fast]).flush.1 =
      ((Clock.start 120).placeBars [slow, fast]).1 := ofBars_eq_of_inOrder 120 inOrder
  rw [placed] at waits ⊢
  have total := waits ⟨.tempo 60, 0, 0⟩ (by decide +kernel)
    ⟨.voice 0 (.noteOff 64), 7680, 5000000000⟩ (by decide +kernel)
  exact Int.ofNat_inj.mp total

end MidiScore
