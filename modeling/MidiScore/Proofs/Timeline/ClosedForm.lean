import Mathlib.Algebra.Order.Ring.Int
import MidiScore.Proofs.Session.Range
import MidiScore.Proofs.Timeline.Words

/-!
# The closed form of a timeline

The clock of a timeline runs through the bars.  Here its state at each bar is written
down from the bars alone: the capacities and times of the bars before it, and the last
tempo heard in it or earlier.  `Timeline.closedForm` places all events by these, and the
bars of a score, which are in order with their tempos at the start, are placed so.
-/

namespace MidiScore

namespace Bar

/-- Ticks of the bars before one. -/
def ticksBefore (bars : List Bar) (index : Nat) : Nat :=
  ((bars.take index).map (·.capacity)).sum

/-- The last tempo of the bars up to and with one. -/
def tempoOf (initial : UInt16) (bars : List Bar) (index : Nat) : UInt16 :=
  Event.tempoAfter initial ((bars.take (index + 1)).flatMap (·.events))

/-- Nanoseconds of some ticks in a bar. -/
def span (initial : UInt16) (bars : List Bar) (index ticks : Nat) : Int :=
  nanosOfTicks (.ofNat (tempoOf initial bars index).toNat) ticks

/-- Nanoseconds of the bars before one, each at its own tempo. -/
def nanosBefore (initial : UInt16) (bars : List Bar) (index : Nat) : Int :=
  ((bars.take index).zipIdx.map fun (bar, earlier) => span initial bars earlier bar.capacity).sum

/-- The moments of all events, bar by bar. -/
def moments (initial : UInt16) (bars : List Bar) : List TimedEvent :=
  bars.zipIdx.flatMap fun (bar, index) => bar.events.map fun event =>
    { message := event.message
      tick := ticksBefore bars index + event.position
      nanos := nanosBefore initial bars index + span initial bars index event.position }

theorem ticksBefore_le (bars : List Bar) (index : Nat) :
    ticksBefore bars index ≤ (bars.map (·.capacity)).sum := by
  conv_rhs => rw [← List.take_append_drop index bars]
  rw [ticksBefore, List.map_append, List.sum_append]
  exact Nat.le_add_right _ _

theorem ticksBefore_mono (bars : List Bar) {index place : Nat} (order : index ≤ place) :
    ticksBefore bars index ≤ ticksBefore bars place := by
  rcases List.take_prefix_take_left (l := bars) order with ⟨more, split⟩
  rw [ticksBefore, ticksBefore, ← split, List.map_append, List.sum_append]
  exact Nat.le_add_right _ _

theorem ticksBefore_succ {bars : List Bar} {index : Nat} {bar : Bar}
    (found : bars[index]? = some bar) :
    ticksBefore bars (index + 1) = ticksBefore bars index + bar.capacity := by
  rw [ticksBefore, List.take_add_one, found, ticksBefore]
  simp

/-- Words hold the ticks of all events of bars, and of the end of the last bar. -/
structure TicksFit (bars : List Bar) : Prop where
  final : (bars.map (·.capacity)).sum < 4294967296
  events : ∀ index bar, bars[index]? = some bar → ∀ event ∈ bar.events,
    ticksBefore bars index + event.position < 4294967296

/-- Where events are within their bars, only the end has to fit. -/
theorem TicksFit.of_within {bars : List Bar} (final : (bars.map (·.capacity)).sum < 4294967296)
    (within : ∀ bar ∈ bars, ∀ event ∈ bar.events, event.position ≤ bar.capacity) :
    TicksFit bars where
  final := final
  events := by
    intro index bar found event member
    have inBar := within bar (List.mem_of_getElem? found) event member
    have ends := ticksBefore_le bars (index + 1)
    rw [ticksBefore_succ found] at ends
    omega

end Bar

/-- The events of bars in order of tick, each bar at a single tempo. -/
def Timeline.closedForm (initial : UInt16) (bars : List Bar) : List TimedEvent :=
  (Bar.moments initial bars).mergeSort TimedEvent.precedes

namespace Bar

section

variable {initial : UInt16} {bars : List Bar} {index : Nat}

/-! ## Further bars change nothing in front of them -/

theorem ticksBefore_append (more : List Bar) (within : index ≤ bars.length) :
    ticksBefore (bars ++ more) index = ticksBefore bars index := by
  rw [ticksBefore, List.take_append_of_le_length within, ticksBefore]

theorem tempoOf_append (more : List Bar) (within : index < bars.length) :
    tempoOf initial (bars ++ more) index = tempoOf initial bars index := by
  rw [tempoOf, List.take_append_of_le_length within, tempoOf]

theorem span_append (more : List Bar) (within : index < bars.length) (ticks : Nat) :
    span initial (bars ++ more) index ticks = span initial bars index ticks := by
  rw [span, tempoOf_append more within, span]

theorem nanosBefore_append (initial : UInt16) (more : List Bar) (within : index ≤ bars.length) :
    nanosBefore initial (bars ++ more) index = nanosBefore initial bars index := by
  rw [nanosBefore, List.take_append_of_le_length within, nanosBefore]
  congr 1
  apply List.map_congr_left
  rintro ⟨bar, earlier⟩ member
  have before : earlier < bars.length := by
    have bounded := List.snd_lt_of_mem_zipIdx member
    simp only [List.length_take] at bounded
    omega
  exact span_append more before bar.capacity

/-! ## One bar more -/

variable (bar : Bar)

theorem tempoOf_length :
    tempoOf initial (bars ++ [bar]) bars.length =
      Event.tempoAfter (Event.tempoAfter initial (bars.flatMap (·.events))) bar.events := by
  rw [tempoOf, List.take_of_length_le (by simp), List.flatMap_append, Event.tempoAfter_append]
  simp

theorem ticksBefore_length :
    ticksBefore (bars ++ [bar]) (bars.length + 1) =
      ticksBefore bars bars.length + bar.capacity := by
  simp [ticksBefore, List.take_of_length_le]

theorem nanosBefore_length :
    nanosBefore initial (bars ++ [bar]) (bars.length + 1) =
      nanosBefore initial bars bars.length +
        span initial (bars ++ [bar]) bars.length bar.capacity := by
  have earlier := nanosBefore_append initial [bar] (Nat.le_refl bars.length)
  rw [← earlier, nanosBefore, nanosBefore, List.take_of_length_le (by simp),
    List.take_left, List.zipIdx_append]
  simp

theorem moments_append :
    moments initial (bars ++ [bar]) =
      moments initial bars ++
        bar.events.map fun event =>
          { message := event.message
            tick := ticksBefore bars bars.length + event.position
            nanos := nanosBefore initial bars bars.length +
              span initial (bars ++ [bar]) bars.length event.position } := by
  rw [moments, List.zipIdx_append, List.flatMap_append]
  congr 1
  · apply List.flatMap_congr
    rintro ⟨other, index⟩ member
    have before : index < bars.length := by simpa using List.snd_lt_of_mem_zipIdx member
    simp only [ticksBefore_append [bar] before.le, nanosBefore_append initial [bar] before.le,
      span_append [bar] before]
  · simp [ticksBefore_append, nanosBefore_append]

end

end Bar

namespace Clock

/-- Whatever the order of events, each is put at its position behind the earlier bars. -/
theorem forall_tick_placeBars_iff {clock : Clock} {bars : List Bar} {holds : Nat → Prop} :
    (∀ timed ∈ (clock.placeBars bars).1, holds timed.tick) ↔
      ∀ index bar, bars[index]? = some bar → ∀ event ∈ bar.events,
        holds (clock.tick + Bar.ticksBefore bars index + event.position) := by
  induction bars generalizing clock with
  | nil => simp [placeBars]
  | cons bar rest ih =>
      have here : (∀ timed ∈ (clock.placeEvents bar.events).1, holds timed.tick) ↔
          ∀ event ∈ bar.events, holds (clock.tick + event.position) := by
        have ticks := congrArg (fun ticks => ∀ tick ∈ ticks, holds tick)
          (clock.map_tick_placeEvents bar.events)
        simpa using ticks
      have split : (∀ timed ∈ (clock.placeBars (bar :: rest)).1, holds timed.tick) ↔ _ :=
        List.forall_mem_append
      rw [split, here, ih, tick_advance, tick_placeEvents]
      constructor
      · rintro ⟨first, later⟩ index other found event member
        cases index with
        | zero =>
            cases found
            exact first event member
        | succ index =>
            have holdsLater := later index other found event member
            rwa [Nat.add_assoc clock.tick] at holdsLater
      · intro all
        refine ⟨fun event member => all 0 bar rfl event member, fun index other found => ?_⟩
        have holdsLater := all (index + 1) other found
        rwa [Nat.add_assoc clock.tick]

/-- Where no tempo is zero, words hold the moments of bars exactly if they hold the ticks. -/
theorem inWords_start_iff_ticksFit {tempo : UInt16} {bars : List Bar}
    (positive : 0 < tempo.toNat)
    (positiveLater : ∀ bar ∈ bars, ∀ event ∈ bar.events, ∀ bpm,
      event.message = .tempo bpm → 0 < bpm.toNat) :
    (start tempo).InWords bars ↔ Bar.TicksFit bars := by
  have fromStart (index : Nat) :
      (start tempo).tick + Bar.ticksBefore bars index = Bar.ticksBefore bars index :=
    Nat.zero_add _
  have events := @forall_tick_placeBars_iff (start tempo) bars (· < 4294967296)
  simp only [fromStart] at events
  rw [inWords_start_iff positive positiveLater, events]
  exact ⟨fun ⟨final, events⟩ => ⟨final, events⟩, fun fits => ⟨fits.final, fits.events⟩⟩

/-- The clock after bars in order, and the moments of their events. -/
theorem placeBars_start_eq (initial : UInt16) {bars : List Bar}
    (ordered : ∀ bar ∈ bars, Event.IsOrdered bar.events) :
    (start initial).placeBars bars =
      (Bar.moments initial bars,
        { tempo := Event.tempoAfter initial (bars.flatMap (·.events))
          tick := Bar.ticksBefore bars bars.length
          nanos := Bar.nanosBefore initial bars bars.length }) := by
  induction bars using List.reverseRecOn with
  | nil => rfl
  | append_singleton bars bar ih =>
      rcases List.forall_mem_append.mp ordered with ⟨orderedBefore, orderedHere⟩
      have orderedBar := orderedHere bar List.mem_cons_self
      rw [placeBars_append, ih orderedBefore, placeBars, placeEvents_eq orderedBar]
      have heard : hearAll
          { tempo := Event.tempoAfter initial (bars.flatMap (·.events))
            tick := Bar.ticksBefore bars bars.length
            nanos := Bar.nanosBefore initial bars bars.length } bar.events =
          { tempo := Bar.tempoOf initial (bars ++ [bar]) bars.length
            tick := Bar.ticksBefore bars bars.length
            nanos := Bar.nanosBefore initial bars bars.length } := by
        rw [hearAll, Bar.tempoOf_length]
      have tempo : Event.tempoAfter initial ((bars ++ [bar]).flatMap (·.events)) =
          Bar.tempoOf initial (bars ++ [bar]) bars.length := by
        rw [Bar.tempoOf_length, List.flatMap_append, Event.tempoAfter_append]
        simp
      rw [heard, tempo, Bar.moments_append, List.length_append, List.length_singleton,
        Bar.ticksBefore_length, Bar.nanosBefore_length]
      simp only [placeBars, List.append_nil]
      rfl

end Clock

/-- Bars that are in order, with their tempos at the start, are placed in closed form. -/
theorem Timeline.ofBars_eq_closedForm (initial : UInt16) {bars : List Bar}
    (ordered : ∀ bar ∈ bars, Event.IsOrdered bar.events) :
    ofBars initial bars = closedForm initial bars := by
  simp only [ofBars, add, flush, start, Clock.placeBars_start_eq initial ordered, closedForm,
    List.nil_append]

namespace Session

/-- The events of every bar that a flush returns are in order, with all tempos at the
start. -/
theorem Reachable.isOrdered_of_mem_flush {config : Config}
    {definitions : List (String × List Declaration)} {session : Session}
    (reached : Reachable config definitions session) :
    ∀ bar ∈ session.flush.1, Event.IsOrdered bar.events := by
  have tempos := reached.forall_event_of_mem_flush fun bar member =>
    (reached.wellTimed bar member).tempo
  intro bar member
  rcases Bar.exists_events_of_mem_settle reached.wellTimed member with ⟨group, _, events_eq⟩
  exact ⟨events_eq ▸ Event.pairwise_mergeSort _, tempos bar member⟩

end Session

/-- From accepted settings, the bars of a score have a timeline exactly if words hold their
ticks, and it is the closed form. -/
theorem ofBars?_eq_some_iff_of_compile {config : Config} (accepted : config.IsAccepted)
    {declarations : List Declaration} {bars : List Bar}
    (compiled : compile config declarations = .ok bars) {events : List TimedEvent} :
    Timeline.ofBars? config.tempo bars = some events ↔
      Bar.TicksFit bars ∧ Timeline.closedForm config.tempo bars = events := by
  rcases Session.exists_reachable_of_compile compiled with ⟨definitions, session, reached, rfl⟩
  have inRange := reached.inRange_of_mem_flush accepted
  rw [Timeline.ofBars?_eq_some_iff,
    and_iff_right fun bar member => (inRange bar member).isMeasurable,
    Clock.inWords_start_iff_ticksFit accepted.tempo_pos
      fun bar member => (inRange bar member).tempo_pos,
    Timeline.ofBars_eq_closedForm config.tempo reached.isOrdered_of_mem_flush]

/-- A score under accepted settings has timed events exactly if it compiles and words hold the
ticks of its bars, and the events are these bars placed in closed form.  Otherwise the error
is that of the compilation, or the overflow. -/
theorem sequence_eq_closedForm {config : Config} (accepted : config.IsAccepted)
    (declarations : List Declaration) :
    (∀ events, sequence config declarations = .ok events ↔
      ∃ bars, compile config declarations = .ok bars ∧ Bar.TicksFit bars ∧
        Timeline.closedForm config.tempo bars = events) ∧
    ∀ error, sequence config declarations = .error error ↔
      compile config declarations = .error error ∨
        error = .overflow ∧
          ∃ bars, compile config declarations = .ok bars ∧ ¬ Bar.TicksFit bars := by
  constructor
  · intro events
    rw [sequence_eq_ok_iff]
    exact exists_congr fun bars => and_congr_right fun compiled =>
      ofBars?_eq_some_iff_of_compile accepted compiled
  · intro error
    cases compiled : compile config declarations with
    | error found => simp [sequence, compiled, bind, Except.bind]
    | ok bars =>
        have placed := @ofBars?_eq_some_iff_of_compile _ accepted _ _ compiled
        have refused : Timeline.ofBars? config.tempo bars = none ↔ ¬ Bar.TicksFit bars := by
          rw [Option.eq_none_iff_forall_ne_some]
          simp [placed]
        have sequenced : sequence config declarations =
            Error.orOverflow (Timeline.ofBars? config.tempo bars) := by
          rw [sequence, compiled]
          rfl
        simp [sequenced, Error.orOverflow_eq_error_iff, refused, and_comm]

/-- A score has timed events if its events are within their bars and the end of the last bar
fits a word. -/
theorem exists_sequence_of_within {config : Config} (accepted : config.IsAccepted)
    {declarations : List Declaration} {bars : List Bar}
    (compiled : compile config declarations = .ok bars)
    (final : (bars.map (·.capacity)).sum < 4294967296)
    (within : ∀ bar ∈ bars, ∀ event ∈ bar.events, event.position ≤ bar.capacity) :
    ∃ events, sequence config declarations = .ok events :=
  have placed := (ofBars?_eq_some_iff_of_compile accepted compiled).mpr
    ⟨.of_within final within, rfl⟩
  ⟨_, sequence_eq_ok_iff.mpr ⟨bars, compiled, placed⟩⟩

/-- A slower second bar, the tempo written in front of it. -/
theorem sequence_eq_closedForm_slower :
    let quarter : Declaration := .notes [.plain 'c']
    let struck : Message := .voice 0 (.noteOn 60 100)
    let released : Message := .voice 0 (.noteOff 60)
    Config.standard.IsAccepted ∧
      sequence .standard [.assign 'c' 60, quarter, .tempo 60, quarter] =
        .ok [⟨struck, 0, 0⟩, ⟨released, 960, 500000000⟩, ⟨.tempo 60, 3840, 2000000000⟩,
          ⟨struck, 3840, 2000000000⟩, ⟨released, 4800, 3000000000⟩] := by
  intro quarter struck released
  have accepted : Config.standard.IsAccepted := .inl rfl
  let note : Bar := ⟨.common, [⟨struck, 0, 960, 0⟩, ⟨released, 960, 0, 0⟩]⟩
  let slow : Bar := ⟨.common, ⟨.tempo 60, 0, 0, 0⟩ :: note.events⟩
  have compiled : compile .standard [.assign 'c' 60, quarter, .tempo 60, quarter] =
      .ok [note, slow] := by
    have waits : ((Session.ofConfig .standard).evaluate
        [.assign 'c' 60, quarter, .tempo 60, quarter]).1.buffer =
          [note, ⟨.common, [⟨.tempo 60, 0, 0, 0⟩]⟩, note] := by decide +kernel
    have sorted : Bar.ofEvents .common note.events = note :=
      congrArg (Bar.mk .common) (List.mergeSort_of_pairwise (by decide))
    have sortedSlow : Bar.ofEvents .common slow.events = slow :=
      congrArg (Bar.mk .common) (List.mergeSort_of_pairwise (by decide))
    refine Session.compile_eq_ok_iff.mpr ⟨by decide +kernel, ?_⟩
    rw [Session.flush, waits]
    exact congrArg₂ (fun first second => [first, second]) sorted sortedSlow
  have fits : Bar.TicksFit [note, slow] :=
    .of_within (by decide) (List.forall_mem_cons.mpr ⟨by decide,
      List.forall_mem_singleton.mpr (by decide)⟩)
  refine ⟨accepted, ((sequence_eq_closedForm accepted _).1 _).mpr ⟨_, compiled, fits, ?_⟩⟩
  have moments : Bar.moments 120 [note, slow] = [⟨struck, 0, 0⟩, ⟨released, 960, 500000000⟩,
      ⟨.tempo 60, 3840, 2000000000⟩, ⟨struck, 3840, 2000000000⟩,
      ⟨released, 4800, 3000000000⟩] := by decide +kernel
  exact (congrArg (List.mergeSort · TimedEvent.precedes) moments).trans
    (List.mergeSort_of_pairwise (by decide))

end MidiScore
