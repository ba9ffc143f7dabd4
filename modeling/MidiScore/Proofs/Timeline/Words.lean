import MidiScore.Proofs.Binary64.Exact
import MidiScore.Proofs.Draft.Transition
import MidiScore.Proofs.Timeline.Tempo

/-!
# Timelines in words

A timeline counts in words and gives up where one of them does not hold a moment.  Since time
only goes on, it gets through exactly if words hold the moments of all events and of the end
of the last bar, and then it puts every event where it would be put without any words,
`Timeline.add?_eq_some_iff`.  At tempos of at least one quarter note in a minute only the
ticks matter: nanoseconds fit long after ticks do not, `Clock.inWords_start_iff`.
-/

namespace MidiScore

namespace Clock

theorem span_mono (clock : Clock) {first second : Nat} (order : first ≤ second) :
    clock.span first ≤ clock.span second :=
  nanosOfTicks_mono clock.tempo.toNat order

theorem span_nonneg (clock : Clock) (ticks : Nat) : 0 ≤ clock.span ticks := by
  have least := clock.span_mono (Nat.zero_le ticks)
  rwa [span, nanosOfTicks_zero] at least

theorem nanos_le_advance (clock : Clock) (ticks : Nat) :
    clock.nanos ≤ (clock.advance ticks).nanos :=
  Int.le_add_of_nonneg_right (clock.span_nonneg ticks)

theorem nanos_placeEvents (clock : Clock) (events : List Event) :
    (clock.placeEvents events).2.nanos = clock.nanos := by
  induction events generalizing clock with
  | nil => rfl
  | cons event rest ih => exact ih (clock.hear event.message)

theorem nanos_le_placeBars (clock : Clock) (bars : List Bar) :
    clock.nanos ≤ (clock.placeBars bars).2.nanos := by
  induction bars generalizing clock with
  | nil => exact Int.le_refl _
  | cons bar rest ih =>
      have advanced := nanos_le_advance (clock.placeEvents bar.events).2 bar.capacity
      rw [nanos_placeEvents] at advanced
      exact Int.le_trans advanced (ih _)

end Clock

/-! ## Moments in words -/

/-- A word of 32 bits holds the tick, and one of 64 bits with a sign the nanosecond. -/
def InWords (tick : Nat) (nanos : Int) : Prop :=
  tick < 4294967296 ∧ nanos < 9223372036854775808

instance (tick : Nat) (nanos : Int) : Decidable (InWords tick nanos) :=
  inferInstanceAs (Decidable (_ ∧ _))

theorem words_eq_some_iff {α : Type} {tick : Nat} {nanos : Int} (started : 0 ≤ nanos)
    {make : Nat → Int → α} {result : α} :
    ((word? tick).bind fun tick => (longWord? nanos).bind fun nanos =>
        some (make tick.toNat nanos.toInt)) = some result ↔
      InWords tick nanos ∧ make tick nanos = result := by
  simp only [Option.bind_eq_some_iff, word?_eq_some_iff, longWord?_eq_some_iff,
    Option.some.injEq]
  constructor
  · rintro ⟨counted, rfl, long, rfl, made⟩
    exact ⟨⟨counted.toNat_lt, Int.lt_of_le_of_lt long.toInt_le (by decide)⟩, made⟩
  · rintro ⟨⟨tickFits, nanosFit⟩, made⟩
    rcases exists_word? tickFits with ⟨counted, -, rfl⟩
    rcases exists_longWord? started nanosFit with ⟨long, -, rfl⟩
    exact ⟨counted, rfl, long, rfl, made⟩

namespace Clock

/-- Words hold the moments of the events of bars that start now, and of their end. -/
structure InWords (clock : Clock) (bars : List Bar) : Prop where
  events : ∀ event ∈ (clock.placeBars bars).1, MidiScore.InWords event.tick event.nanos
  final : MidiScore.InWords (clock.placeBars bars).2.tick (clock.placeBars bars).2.nanos

instance (clock : Clock) (bars : List Bar) : Decidable (clock.InWords bars) :=
  decidable_of_iff
    ((∀ event ∈ (clock.placeBars bars).1, MidiScore.InWords event.tick event.nanos) ∧
      MidiScore.InWords (clock.placeBars bars).2.tick (clock.placeBars bars).2.nanos)
    ⟨fun ⟨events, final⟩ => ⟨events, final⟩, fun ⟨events, final⟩ => ⟨events, final⟩⟩

/-- A clock that a song can have come to. -/
structure IsValid (clock : Clock) : Prop where
  started : 0 ≤ clock.nanos
  held : MidiScore.InWords clock.tick clock.nanos

theorem IsValid.start (tempo : UInt16) : (start tempo).IsValid :=
  have zero : MidiScore.InWords 0 0 := ⟨by decide, by decide⟩
  ⟨Int.le_refl 0, zero⟩

section

variable {clock : Clock}

theorem timed?_eq_some_iff (started : 0 ≤ clock.nanos) {event : Event} {timed : TimedEvent} :
    clock.timed? event = some timed ↔
      MidiScore.InWords (clock.timed event).tick (clock.timed event).nanos ∧
        clock.timed event = timed :=
  words_eq_some_iff (Int.add_nonneg started (clock.span_nonneg event.position))

theorem advance?_eq_some_iff (started : 0 ≤ clock.nanos) {ticks : Nat} {next : Clock} :
    clock.advance? ticks = some next ↔
      MidiScore.InWords (clock.advance ticks).tick (clock.advance ticks).nanos ∧
        clock.advance ticks = next :=
  words_eq_some_iff (Int.add_nonneg started (clock.span_nonneg ticks))

theorem placeEvents?_cons_eq_some_iff {event : Event} {rest : List Event}
    {placed : List TimedEvent × Clock} :
    clock.placeEvents? (event :: rest) = some placed ↔
      ∃ timed later final, clock.timed? event = some timed ∧
        (clock.hear event.message).placeEvents? rest = some (later, final) ∧
        (timed :: later, final) = placed := by
  simp only [placeEvents?, bind, Option.bind_eq_some_iff, Prod.exists, pure, Option.some.injEq,
    exists_and_left]

theorem placeBars?_cons_eq_some_iff {bar : Bar} {rest : List Bar}
    {placed : List TimedEvent × Clock} :
    clock.placeBars? (bar :: rest) = some placed ↔
      ∃ events heard next later final, clock.placeEvents? bar.events = some (events, heard) ∧
        bar.meter.isMeasurable = true ∧ heard.advance? bar.capacity = some next ∧
        next.placeBars? rest = some (later, final) ∧ (events ++ later, final) = placed := by
  simp [placeBars?, Bar.capacity?, bind, Option.bind_eq_some_iff]

theorem placeEvents?_eq_some_iff (started : 0 ≤ clock.nanos) {events : List Event}
    {placed : List TimedEvent × Clock} :
    clock.placeEvents? events = some placed ↔
      (∀ timed ∈ (clock.placeEvents events).1, MidiScore.InWords timed.tick timed.nanos) ∧
        clock.placeEvents events = placed := by
  induction events generalizing clock placed with
  | nil => simp [placeEvents?, placeEvents]
  | cons event rest ih =>
      have heard : 0 ≤ (clock.hear event.message).nanos := started
      rw [placeEvents?_cons_eq_some_iff, placeEvents, List.forall_mem_cons]
      simp only [timed?_eq_some_iff started, ih heard]
      constructor
      · rintro ⟨_, _, _, ⟨here, rfl⟩, ⟨later, placedLater⟩, rfl⟩
        rw [placedLater] at later ⊢
        exact ⟨⟨here, later⟩, rfl⟩
      · rintro ⟨⟨here, later⟩, rfl⟩
        exact ⟨_, _, _, ⟨here, rfl⟩, ⟨later, rfl⟩, rfl⟩

/-- Words hold the moments of bars exactly if they hold those of the first one, and those of
the others from its end on. -/
theorem inWords_cons_iff {bar : Bar} {rest : List Bar} :
    clock.InWords (bar :: rest) ↔
      (∀ timed ∈ (clock.placeEvents bar.events).1, MidiScore.InWords timed.tick timed.nanos) ∧
        ((clock.placeEvents bar.events).2.advance bar.capacity).InWords rest := by
  constructor
  · rintro ⟨events, final⟩
    rcases List.forall_mem_append.mp events with ⟨here, later⟩
    exact ⟨here, later, final⟩
  · rintro ⟨here, later, final⟩
    exact ⟨List.forall_mem_append.mpr ⟨here, later⟩, final⟩

/-- The start of bars comes no later than their end. -/
theorem InWords.held {bars : List Bar} (inWords : clock.InWords bars) :
    MidiScore.InWords clock.tick clock.nanos := by
  rcases inWords.final with ⟨tick, nanos⟩
  rw [tick_placeBars] at tick
  exact ⟨Nat.lt_of_le_of_lt (Nat.le_add_right _ _) tick,
    Int.lt_of_le_of_lt (clock.nanos_le_placeBars bars) nanos⟩

/-- Bars are placed in words exactly if all have a capacity and words hold all moments, and
then as without words. -/
theorem placeBars?_eq_some_iff (valid : clock.IsValid) {bars : List Bar}
    {placed : List TimedEvent × Clock} :
    clock.placeBars? bars = some placed ↔
      ((∀ bar ∈ bars, bar.meter.isMeasurable = true) ∧ clock.InWords bars) ∧
        clock.placeBars bars = placed := by
  induction bars generalizing clock placed with
  | nil =>
      have here : clock.InWords [] := ⟨List.forall_mem_nil _, valid.held⟩
      simp [placeBars?, placeBars, here]
  | cons bar rest ih =>
      have started : 0 ≤ (clock.placeEvents bar.events).2.nanos :=
        clock.nanos_placeEvents bar.events ▸ valid.started
      have ends (inWords : MidiScore.InWords
          ((clock.placeEvents bar.events).2.advance bar.capacity).tick
          ((clock.placeEvents bar.events).2.advance bar.capacity).nanos) :
          ((clock.placeEvents bar.events).2.advance bar.capacity).IsValid :=
        ⟨Int.le_trans started (nanos_le_advance _ bar.capacity), inWords⟩
      rw [placeBars?_cons_eq_some_iff, placeBars, inWords_cons_iff, List.forall_mem_cons]
      simp only [placeEvents?_eq_some_iff valid.started]
      constructor
      · rintro ⟨_, _, _, _, _, ⟨here, placedHere⟩, measurable, moved, placedLater, rfl⟩
        rw [placedHere] at here started ends ⊢
        rcases (advance?_eq_some_iff started).mp moved with ⟨held, rfl⟩
        rcases (ih (ends held)).mp placedLater with ⟨⟨measurableLater, later⟩, placedLater⟩
        exact ⟨⟨⟨measurable, measurableLater⟩, here, later⟩, by rw [placedLater]⟩
      · rintro ⟨⟨⟨measurable, measurableLater⟩, here, later⟩, rfl⟩
        exact ⟨_, _, _, _, _, ⟨here, rfl⟩, measurable,
          (advance?_eq_some_iff started).mpr ⟨later.held, rfl⟩,
          (ih (ends later.held)).mpr ⟨⟨measurableLater, later⟩, rfl⟩, rfl⟩

theorem placeBars?_append (clock : Clock) (first second : List Bar) :
    clock.placeBars? (first ++ second) =
      (clock.placeBars? first).bind fun (events, middle) =>
        (middle.placeBars? second).map fun (later, final) => (events ++ later, final) := by
  induction first generalizing clock with
  | nil => simp [placeBars?]
  | cons bar rest ih =>
      rw [List.cons_append, placeBars?, placeBars?]
      rcases clock.placeEvents? bar.events with _ | ⟨events, heard⟩
      · rfl
      rcases bar.capacity? with _ | capacity
      · rfl
      rcases advanced : heard.advance? capacity with _ | next
      · simp [advanced]
      rcases placed : next.placeBars? rest with _ | ⟨later, middle⟩
      · simp [advanced, ih, placed]
      rcases ended : middle.placeBars? second with _ | ⟨last, final⟩
      · simp [advanced, ih, placed, ended]
      · simp [advanced, ih, placed, ended]

end

/-- However far a clock has come, it goes on by the capacities of the bars that it times. -/
theorem tick_placeEvents? {clock heard : Clock} {events : List Event} {placed : List TimedEvent}
    (timed : clock.placeEvents? events = some (placed, heard)) : heard.tick = clock.tick := by
  induction events generalizing clock placed with
  | nil =>
      cases timed
      rfl
  | cons event rest ih =>
      rcases placeEvents?_cons_eq_some_iff.mp timed with ⟨_, later, final, _, placedLater, same⟩
      cases same
      exact (ih placedLater :)

theorem tick_placeBars? {clock final : Clock} {bars : List Bar} {placed : List TimedEvent}
    (timed : clock.placeBars? bars = some (placed, final)) :
    final.tick = clock.tick + (bars.map (·.capacity)).sum := by
  induction bars generalizing clock placed with
  | nil =>
      cases timed
      rfl
  | cons bar rest ih =>
      rcases placeBars?_cons_eq_some_iff.mp timed with
        ⟨_, heard, next, _, _, here, _, moved, placedLater, same⟩
      cases same
      simp only [advance?, bind, Option.bind_eq_some_iff, word?_eq_some_iff, pure,
        Option.some.injEq] at moved
      rcases moved with ⟨tick, tick_eq, _, _, rfl⟩
      have ends := ih placedLater
      rw [tick_eq, tick_placeEvents? here] at ends
      rw [ends, List.map_cons, List.sum_cons, Nat.add_assoc]

/-! ## Only the ticks matter -/

/-- The clock goes at one quarter note in a minute at least, and it did so before. -/
structure IsPaced (clock : Clock) : Prop where
  tempo : 0 < clock.tempo.toNat
  nanos : clock.nanos ≤ 134217728 * clock.tick

theorem IsPaced.start {tempo : UInt16} (positive : 0 < tempo.toNat) : (start tempo).IsPaced :=
  ⟨positive, Int.le_refl 0⟩

namespace IsPaced

variable {clock : Clock}

theorem span_le (paced : clock.IsPaced) {ticks : Nat} (small : ticks < 4294967296) :
    clock.span ticks ≤ 134217728 * ticks :=
  nanosOfTicks_le paced.tempo (Nat.lt_trans clock.tempo.toNat_lt (by decide)) small

theorem hear (paced : clock.IsPaced) {message : Message}
    (positive : ∀ bpm, message = .tempo bpm → 0 < bpm.toNat) : (clock.hear message).IsPaced where
  tempo := by
    cases message with
    | tempo bpm => exact positive bpm rfl
    | _ => exact paced.tempo
  nanos := paced.nanos

theorem advance (paced : clock.IsPaced) {ticks : Nat} (small : ticks < 4294967296) :
    (clock.advance ticks).IsPaced where
  tempo := paced.tempo
  nanos := by
    have before := paced.nanos
    have more := paced.span_le small
    rw [Clock.advance]
    dsimp only
    omega

theorem placeEvents (paced : clock.IsPaced) {events : List Event}
    (positive : ∀ event ∈ events, ∀ bpm, event.message = .tempo bpm → 0 < bpm.toNat) :
    (clock.placeEvents events).2.IsPaced ∧
      ∀ timed ∈ (clock.placeEvents events).1, timed.tick < 4294967296 →
        timed.nanos ≤ 134217728 * timed.tick := by
  induction events generalizing clock with
  | nil => exact ⟨paced, List.forall_mem_nil _⟩
  | cons event rest ih =>
      rcases List.forall_mem_cons.mp positive with ⟨positiveHere, positiveLater⟩
      rcases ih (paced.hear positiveHere) positiveLater with ⟨after, later⟩
      refine ⟨after, List.forall_mem_cons.mpr ⟨fun small => ?_, later⟩⟩
      have before := paced.nanos
      have more := paced.span_le (Nat.lt_of_le_of_lt (Nat.le_add_left _ _) small)
      rw [timed]
      dsimp only
      omega

theorem placeBars (paced : clock.IsPaced) {bars : List Bar}
    (positive : ∀ bar ∈ bars, ∀ event ∈ bar.events, ∀ bpm,
      event.message = .tempo bpm → 0 < bpm.toNat) :
    (clock.placeBars bars).2.IsPaced ∧
      ∀ timed ∈ (clock.placeBars bars).1, timed.tick < 4294967296 →
        timed.nanos ≤ 134217728 * timed.tick := by
  induction bars generalizing clock with
  | nil => exact ⟨paced, List.forall_mem_nil _⟩
  | cons bar rest ih =>
      rcases List.forall_mem_cons.mp positive with ⟨positiveHere, positiveLater⟩
      rcases paced.placeEvents positiveHere with ⟨heard, here⟩
      rcases ih (heard.advance bar.capacity_lt) positiveLater with ⟨after, later⟩
      exact ⟨after, List.forall_mem_append.mpr ⟨here, later⟩⟩

end IsPaced

section

variable {tempo : UInt16} {bars : List Bar} (positive : 0 < tempo.toNat)
  (positiveLater : ∀ bar ∈ bars, ∀ event ∈ bar.events, ∀ bpm,
    event.message = .tempo bpm → 0 < bpm.toNat)

include positive positiveLater

/-- Where no tempo is zero, words hold a song exactly if they hold its ticks. -/
theorem inWords_start_iff :
    (start tempo).InWords bars ↔
      (bars.map (·.capacity)).sum < 4294967296 ∧
        ∀ timed ∈ ((start tempo).placeBars bars).1, timed.tick < 4294967296 := by
  rcases (IsPaced.start positive).placeBars positiveLater with ⟨after, events⟩
  have ends : ((start tempo).placeBars bars).2.tick = (bars.map (·.capacity)).sum :=
    ((start tempo).tick_placeBars bars).trans (Nat.zero_add _)
  rw [← ends]
  constructor
  · intro inWords
    exact ⟨inWords.final.1, fun timed member => (inWords.events timed member).1⟩
  · rintro ⟨ends, small⟩
    refine ⟨fun timed member => ⟨small timed member, ?_⟩, ends, ?_⟩
    · have bounded := events timed member (small timed member)
      have tick := small timed member
      omega
    · have bounded := after.nanos
      omega

/-- Events within their bars come before the end of the song. -/
theorem inWords_start_iff_of_within
    (within : ∀ bar ∈ bars, ∀ event ∈ bar.events, event.position ≤ bar.capacity) :
    (start tempo).InWords bars ↔ (bars.map (·.capacity)).sum < 4294967296 := by
  rw [inWords_start_iff positive positiveLater]
  refine and_iff_left_of_imp fun small timed member => ?_
  have ends : ((start tempo).placeBars bars).2.tick = (bars.map (·.capacity)).sum :=
    ((start tempo).tick_placeBars bars).trans (Nat.zero_add _)
  exact Nat.lt_of_le_of_lt (ends ▸ tick_le_of_mem_placeBars within member) small

end

end Clock

namespace Timeline

theorem add?_eq_some_iff {timeline after : Timeline} (valid : timeline.clock.IsValid)
    {bars : List Bar} :
    timeline.add? bars = some after ↔
      ((∀ bar ∈ bars, bar.meter.isMeasurable = true) ∧ timeline.clock.InWords bars) ∧
        timeline.add bars = after := by
  rw [add?, add]
  simp only [bind, Option.bind_eq_some_iff, Clock.placeBars?_eq_some_iff valid, Prod.exists, pure,
    Option.some.injEq]
  constructor
  · rintro ⟨_, _, ⟨placeable, placed⟩, rfl⟩
    exact ⟨placeable, by rw [placed]⟩
  · rintro ⟨placeable, rfl⟩
    exact ⟨_, _, ⟨placeable, rfl⟩, rfl⟩

theorem tick_add? {timeline after : Timeline} {bars : List Bar}
    (added : timeline.add? bars = some after) :
    after.clock.tick = timeline.clock.tick + (bars.map (·.capacity)).sum := by
  simp only [add?, bind, Option.bind_eq_some_iff, Prod.exists, pure, Option.some.injEq] at added
  rcases added with ⟨_, _, placed, rfl⟩
  exact Clock.tick_placeBars? placed

/-- Bars are taken in at once exactly as in two parts. -/
theorem add?_append (timeline : Timeline) (first second : List Bar) :
    timeline.add? (first ++ second) = (timeline.add? first).bind (·.add? second) := by
  rw [add?, add?, Clock.placeBars?_append]
  rcases timeline.clock.placeBars? first with _ | ⟨events, middle⟩
  · rfl
  rcases placed : middle.placeBars? second with _ | ⟨later, final⟩
  · simp [add?, placed]
  · simp [add?, placed]

theorem exists_add?_iff {timeline : Timeline} (valid : timeline.clock.IsValid)
    {bars : List Bar} :
    (∃ after, timeline.add? bars = some after) ↔
      (∀ bar ∈ bars, bar.meter.isMeasurable = true) ∧ timeline.clock.InWords bars := by
  simp only [add?_eq_some_iff valid, exists_and_left, exists_eq', and_true]

section

variable {tempo : UInt16} {bars : List Bar} {events : List TimedEvent}

theorem ofBars?_eq_some_iff :
    ofBars? tempo bars = some events ↔
      ((∀ bar ∈ bars, bar.meter.isMeasurable = true) ∧ (Clock.start tempo).InWords bars) ∧
        ofBars tempo bars = events := by
  rw [ofBars?, ofBars]
  simp only [bind, Option.bind_eq_some_iff, @add?_eq_some_iff (start tempo) _ (.start tempo),
    pure, Option.some.injEq]
  constructor
  · rintro ⟨_, ⟨placeable, rfl⟩, flushed⟩
    exact ⟨placeable, flushed⟩
  · rintro ⟨placeable, flushed⟩
    exact ⟨_, ⟨placeable, rfl⟩, flushed⟩

end

/-- What a timeline is asked for. -/
inductive Request where
  /-- Take in more bars. -/
  | add (bars : List Bar)
  /-- Hand out the events that wait. -/
  | flush

/-- The bars that a request brings. -/
def Request.bars : Request → List Bar
  | .add bars => bars
  | .flush => []

end Timeline

/-! ## Scores -/

theorem sequence_eq_ok_iff {config : Config} {declarations : List Declaration}
    {events : List TimedEvent} :
    sequence config declarations = .ok events ↔
      ∃ bars, compile config declarations = .ok bars ∧
        Timeline.ofBars? config.tempo bars = some events := by
  simp only [sequence, bind_eq_ok_iff, Error.orOverflow_eq_ok_iff]

/-- The events of a score are those of its bars. -/
theorem exists_bars_of_sequence {config : Config} {declarations : List Declaration}
    {events : List TimedEvent} (sequenced : sequence config declarations = .ok events) :
    ∃ bars, compile config declarations = .ok bars ∧
      Timeline.ofBars config.tempo bars = events := by
  rcases sequence_eq_ok_iff.mp sequenced with ⟨bars, compiled, placed⟩
  exact ⟨bars, compiled, (Timeline.ofBars?_eq_some_iff.mp placed).2⟩

end MidiScore
