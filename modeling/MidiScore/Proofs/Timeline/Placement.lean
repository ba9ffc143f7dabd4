import Mathlib.Algebra.Order.Ring.Nat
import MidiScore.Proofs.Sorting
import MidiScore.Timeline

/-!
# Where a timeline puts events

The clock puts every event of a bar at the tick where the bar starts and its position
further on, and goes on by the capacity of the bar.  Here it does so without looking whether
words hold the moments; that they either do, or there is no timeline, is said in
`MidiScore.Proofs.Timeline.Words`.  If the events of each bar are in order and within the
bar, they are put in order of tick already, and the sort of a flush leaves them as they are.
-/

namespace MidiScore

/-- The events of the bar come in order of position, and none stands beyond its end. -/
structure Bar.InOrder (bar : Bar) : Prop where
  sorted : bar.events.Pairwise fun first second => first.position ≤ second.position
  within : ∀ event ∈ bar.events, event.position ≤ bar.capacity

namespace Clock

/-- The moment of an event in the bar that starts now. -/
def timed (clock : Clock) (event : Event) : TimedEvent :=
  ⟨event.message, clock.tick + event.position, clock.nanos + clock.span event.position⟩

/-- The moments of the events of one bar, and the clock with the tempo they leave. -/
def placeEvents (clock : Clock) : List Event → List TimedEvent × Clock
  | [] => ([], clock)
  | event :: rest =>
      let (later, final) := (clock.hear event.message).placeEvents rest
      (clock.timed event :: later, final)

/-- The clock after some ticks. -/
def advance (clock : Clock) (ticks : Nat) : Clock :=
  { clock with tick := clock.tick + ticks, nanos := clock.nanos + clock.span ticks }

/-- The moments of the events of bars, and the clock at their end. -/
def placeBars (clock : Clock) : List Bar → List TimedEvent × Clock
  | [] => ([], clock)
  | bar :: rest =>
      let (events, heard) := clock.placeEvents bar.events
      let (later, final) := (heard.advance bar.capacity).placeBars rest
      (events ++ later, final)

end Clock

namespace Timeline

/-- The timeline with more bars. -/
def add (timeline : Timeline) (bars : List Bar) : Timeline :=
  let (events, clock) := timeline.clock.placeBars bars
  ⟨clock, timeline.waiting ++ events⟩

/-- The events of bars from the start of a song. -/
def ofBars (tempo : UInt16) (bars : List Bar) : List TimedEvent :=
  ((start tempo).add bars).flush.1

end Timeline

namespace Clock

/-! ## Messages and ticks -/

theorem map_placeEvents (clock : Clock) (events : List Event) :
    (clock.placeEvents events).1.map (fun timed => (timed.tick, timed.message)) =
      events.map fun event => (clock.tick + event.position, event.message) := by
  induction events generalizing clock with
  | nil => rfl
  | cons event rest ih =>
      rw [placeEvents, List.map_cons, List.map_cons, ih]
      rfl

theorem map_message_placeEvents (clock : Clock) (events : List Event) :
    (clock.placeEvents events).1.map (·.message) = events.map (·.message) := by
  have placed := congrArg (List.map (·.2)) (clock.map_placeEvents events)
  rwa [List.map_map, List.map_map] at placed

theorem map_tick_placeEvents (clock : Clock) (events : List Event) :
    (clock.placeEvents events).1.map (·.tick) = events.map (clock.tick + ·.position) := by
  have placed := congrArg (List.map (·.1)) (clock.map_placeEvents events)
  rwa [List.map_map, List.map_map] at placed

theorem map_message_placeBars (clock : Clock) (bars : List Bar) :
    (clock.placeBars bars).1.map (·.message) = (bars.flatMap (·.events)).map (·.message) := by
  induction bars generalizing clock with
  | nil => rfl
  | cons bar rest ih =>
      rw [placeBars, List.map_append, ih, map_message_placeEvents, List.flatMap_cons,
        List.map_append]

theorem mem_placeEvents {clock : Clock} {events : List Event} {timed : TimedEvent}
    (member : timed ∈ (clock.placeEvents events).1) :
    ∃ event ∈ events, timed.tick = clock.tick + event.position := by
  have listed := List.mem_map_of_mem (f := (·.tick)) member
  rw [map_tick_placeEvents] at listed
  rcases List.mem_map.mp listed with ⟨event, inEvents, tick_eq⟩
  exact ⟨event, inEvents, tick_eq.symm⟩

theorem tick_placeEvents (clock : Clock) (events : List Event) :
    (clock.placeEvents events).2.tick = clock.tick := by
  induction events generalizing clock with
  | nil => rfl
  | cons event rest ih => exact ih (clock.hear event.message)

theorem tick_advance (clock : Clock) (ticks : Nat) :
    (clock.advance ticks).tick = clock.tick + ticks :=
  rfl

theorem tick_placeBars (clock : Clock) (bars : List Bar) :
    (clock.placeBars bars).2.tick = clock.tick + (bars.map (·.capacity)).sum := by
  induction bars generalizing clock with
  | nil => rfl
  | cons bar rest ih =>
      rw [placeBars, ih, tick_advance, tick_placeEvents, List.map_cons, List.sum_cons,
        Nat.add_assoc]

theorem placeBars_append {clock : Clock} {first second : List Bar} :
    clock.placeBars (first ++ second) =
      ((clock.placeBars first).1 ++ ((clock.placeBars first).2.placeBars second).1,
        ((clock.placeBars first).2.placeBars second).2) := by
  induction first generalizing clock with
  | nil => rfl
  | cons bar rest ih => simp [placeBars, ih]

/-! ## Bars in order -/

theorem le_tick_of_mem_placeBars {clock : Clock} {bars : List Bar} {timed : TimedEvent}
    (member : timed ∈ (clock.placeBars bars).1) : clock.tick ≤ timed.tick := by
  induction bars generalizing clock with
  | nil => contradiction
  | cons bar rest ih =>
      rcases List.mem_append.mp member with here | later
      · rcases mem_placeEvents here with ⟨event, _, tick_eq⟩
        exact tick_eq ▸ Nat.le_add_right _ _
      · have start := ih later
        rw [tick_advance, tick_placeEvents] at start
        exact Nat.le_trans (Nat.le_add_right _ _) start

/-- Events within their bars come before the end. -/
theorem tick_le_of_mem_placeBars {clock : Clock} {bars : List Bar}
    (within : ∀ bar ∈ bars, ∀ event ∈ bar.events, event.position ≤ bar.capacity)
    {timed : TimedEvent} (member : timed ∈ (clock.placeBars bars).1) :
    timed.tick ≤ (clock.placeBars bars).2.tick := by
  induction bars generalizing clock with
  | nil => contradiction
  | cons bar rest ih =>
      rcases List.forall_mem_cons.mp within with ⟨withinHere, withinLater⟩
      rcases List.mem_append.mp member with here | later
      · rcases mem_placeEvents here with ⟨event, inBar, tick_eq⟩
        have bounded := withinHere event inBar
        rw [tick_placeBars, List.map_cons, List.sum_cons]
        omega
      · exact ih withinLater later

/-- The events of bars in order are put in order of tick. -/
theorem pairwise_placeBars {clock : Clock} {bars : List Bar}
    (ordered : ∀ bar ∈ bars, bar.InOrder) :
    (clock.placeBars bars).1.Pairwise fun first second => first.tick ≤ second.tick := by
  induction bars generalizing clock with
  | nil => exact .nil
  | cons bar rest ih =>
      rcases List.forall_mem_cons.mp ordered with ⟨orderedHere, orderedLater⟩
      refine List.pairwise_append.mpr ⟨?_, ih orderedLater, ?_⟩
      · have ticks : ((clock.placeEvents bar.events).1.map (·.tick)).Pairwise (· ≤ ·) := by
          rw [map_tick_placeEvents, List.pairwise_map]
          exact orderedHere.sorted.imp fun before => Nat.add_le_add_left before clock.tick
        exact List.pairwise_map.mp ticks
      · -- an event within this bar comes before all that starts at the end of the bar
        intro first here second later
        rcases mem_placeEvents here with ⟨event, inBar, tick_eq⟩
        have ends := orderedHere.within event inBar
        have start := le_tick_of_mem_placeBars later
        rw [tick_advance, tick_placeEvents] at start
        omega

end Clock

namespace Timeline

theorem pairwise_ofBars (tempo : UInt16) (bars : List Bar) :
    (ofBars tempo bars).Pairwise fun first second => first.tick ≤ second.tick :=
  pairwise_mergeSort_key _

/-! ## Timelines in order -/

/-- What waits is in order of tick, and the next bar starts after it. -/
structure InOrder (timeline : Timeline) : Prop where
  sorted : timeline.waiting.Pairwise fun first second => first.tick ≤ second.tick
  past : ∀ event ∈ timeline.waiting, event.tick ≤ timeline.clock.tick

theorem InOrder.start (tempo : UInt16) : (start tempo).InOrder :=
  ⟨.nil, by simp [Timeline.start]⟩

theorem InOrder.flush_eq {timeline : Timeline} (inOrder : timeline.InOrder) :
    timeline.flush.1 = timeline.waiting :=
  List.mergeSort_of_pairwise (inOrder.sorted.imp decide_eq_true)

/-- What waits in order is handed out as it is. -/
theorem ofBars_of_waiting {tempo : UInt16} {bars : List Bar} {events : List TimedEvent}
    (placed : ((start tempo).add bars).waiting = events)
    (sorted : events.Pairwise fun first second => first.tick ≤ second.tick) :
    ofBars tempo bars = events := by
  rw [ofBars, flush, placed]
  exact List.mergeSort_of_pairwise (sorted.imp decide_eq_true)

theorem InOrder.add {timeline : Timeline} {bars : List Bar} (inOrder : timeline.InOrder)
    (ordered : ∀ bar ∈ bars, bar.InOrder) : (timeline.add bars).InOrder where
  sorted := by
    refine List.pairwise_append.mpr ⟨inOrder.sorted, Clock.pairwise_placeBars ordered, ?_⟩
    intro first before second placed
    exact Nat.le_trans (inOrder.past first before) (Clock.le_tick_of_mem_placeBars placed)
  past := by
    refine List.forall_mem_append.mpr ⟨fun event before => ?_, fun event placed => ?_⟩
    · have advanced := Clock.tick_placeBars timeline.clock bars
      exact Nat.le_trans (inOrder.past event before) (advanced ▸ Nat.le_add_right _ _)
    · exact Clock.tick_le_of_mem_placeBars (fun bar member => (ordered bar member).within) placed

/-- The events of bars in order stay as they were put. -/
theorem ofBars_eq_of_inOrder (tempo : UInt16) {bars : List Bar}
    (ordered : ∀ bar ∈ bars, bar.InOrder) :
    ofBars tempo bars = ((Clock.start tempo).placeBars bars).1 := by
  rw [ofBars, ((InOrder.start tempo).add ordered).flush_eq]
  rfl

end Timeline

end MidiScore
