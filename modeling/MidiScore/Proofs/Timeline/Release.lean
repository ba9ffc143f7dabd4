import MidiScore.Proofs.Bar.Release
import MidiScore.Proofs.Flush.Room
import MidiScore.Proofs.Timeline.ClosedForm

/-!
# Keys released before they are struck again, in a whole song

Both sorts on the way to a timeline keep the order of events at one moment.  So a song
releases first exactly if each of its bars does and no strike of a bar meets a release of a
later one.  The latter cannot happen where bars fit: what is struck in a bar lasts, and the
bar is over only after it.
-/

namespace MidiScore

/-- No event strikes a key that a later event of its tick releases. -/
def TimedEvent.ReleaseFirst (events : List TimedEvent) : Prop :=
  events.Pairwise fun first second =>
    first.tick = second.tick → first.message.isCutBy second.message = false

instance (events : List TimedEvent) : Decidable (TimedEvent.ReleaseFirst events) :=
  inferInstanceAs (Decidable (events.Pairwise _))

namespace Bar

/-- No event of a bar strikes a key that an event of a later bar releases at its tick. -/
def SpareLater (bars : List Bar) : Prop :=
  bars.zipIdx.Pairwise fun (bar, index) (later, place) =>
    ∀ first ∈ bar.events, ∀ second ∈ later.events,
      ticksBefore bars index + first.position = ticksBefore bars place + second.position →
        first.message.isCutBy second.message = false

/-- Further bars start after a bar is over. -/
theorem ticksBefore_add_capacity_le {bars : List Bar} {index place : Nat} {bar : Bar}
    (found : bars[index]? = some bar) (later : index < place) :
    ticksBefore bars index + bar.capacity ≤ ticksBefore bars place := by
  rw [← ticksBefore_succ found]
  exact ticksBefore_mono bars later

/-- Where strikes last and bars fit, no strike meets a release of a later bar. -/
theorem spareLater_of_fits {bars : List Bar} (fits : ∀ bar ∈ bars, bar.Fits)
    (last : ∀ bar ∈ bars, bar.StrikesLast) : SpareLater bars := by
  apply List.pairwise_iff_getElem.mpr
  intro index place indexBound placeBound before
  simp only [List.getElem_zipIdx, Nat.zero_add]
  rw [List.length_zipIdx] at indexBound
  intro struck inBar released _ same
  have start := ticksBefore_add_capacity_le (List.getElem?_eq_getElem indexBound) before
  have ends := fits _ (List.getElem_mem indexBound) struck inBar
  cases strikes : struck.message.isStrike with
  | false => exact Message.isCutBy_eq_false_of_isStrike _ strikes
  | true =>
      have lasts := last _ (List.getElem_mem indexBound) struck inBar strikes
      rw [Event.reach] at ends
      omega

theorem releaseFirst_ofEvents_append_iff {waiting : List Event} {bar : Bar}
    (still : Event.Still waiting) :
    Event.ReleaseFirst (ofEvents bar.meter (waiting ++ bar.events)).events ↔
      Event.ReleaseFirst bar.events := by
  have stable : Event.ReleaseFirst (ofEvents bar.meter (waiting ++ bar.events)).events ↔
      Event.ReleaseFirst (waiting ++ bar.events) := pairwise_ties_mergeSort_iff
  rw [stable, Event.releaseFirst_append_of_still still]

theorem forall_releaseFirst_settle_iff {bars : List Bar}
    (last : ∀ bar ∈ bars, bar.StrikesLast) :
    (∀ bar ∈ settle [] bars, Event.ReleaseFirst bar.events) ↔
      ∀ bar ∈ bars, Event.ReleaseFirst bar.events := by
  apply forall_settle_iff (Event.ReleaseFirst ·.events) (·.message.isStrike = false)
    (fun front => releaseFirst_ofEvents_append_iff front) _ (by simp)
  intro bar member zero
  have still : Event.Still bar.events := by
    intro event inBar
    have instant := (isZeroDuration_iff.mp zero).2 event inBar
    by_contra strikes
    exact absurd (last bar member event inBar (by simpa using strikes)) (by simp [instant])
  exact ⟨still.releaseFirst, still⟩

end Bar

/-- A song releases first exactly if each of its bars does and later bars are spared. -/
theorem Timeline.releaseFirst_iff (initial : UInt16) {bars : List Bar}
    (ordered : ∀ bar ∈ bars, Event.IsOrdered bar.events) :
    TimedEvent.ReleaseFirst (ofBars initial bars) ↔
      (∀ bar ∈ bars, Event.ReleaseFirst bar.events) ∧ Bar.SpareLater bars := by
  have stable : TimedEvent.ReleaseFirst (closedForm initial bars) ↔
      TimedEvent.ReleaseFirst (Bar.moments initial bars) := pairwise_ties_mergeSort_iff
  rw [ofBars_eq_closedForm initial ordered, stable, TimedEvent.ReleaseFirst, Bar.moments,
    List.pairwise_flatMap]
  apply and_congr
  · have indexed : (∀ bar ∈ bars, Event.ReleaseFirst bar.events) ↔
        ∀ entry ∈ bars.zipIdx, Event.ReleaseFirst entry.1.events := by
      conv_lhs => rw [← List.zipIdx_map_fst 0 bars]
      exact List.forall_mem_map
    rw [indexed]
    apply forall₂_congr
    intro entry _
    simp [List.pairwise_map, Event.ReleaseFirst]
  · simp [Bar.SpareLater]

/-- The bars of a flush release first exactly if those do that were played by name. -/
theorem Session.Reachable.forall_releaseFirst_flush_iff {config : Config}
    {definitions : List (String × List Declaration)} {session : Session}
    (reached : Reachable config definitions session) :
    (∀ bar ∈ session.flush.1, Event.ReleaseFirst bar.events) ↔
      ∀ definition ∈ definitions, ∀ bar ∈ session.buffer,
        session.context.bar? definition.1 = some bar → Event.ReleaseFirst bar.events := by
  rw [Session.flush, Bar.forall_releaseFirst_settle_iff reached.strikesLast]
  constructor
  · exact fun all _ _ bar waits _ => all bar waits
  · intro named bar waits
    rcases reached.isSource bar waits with ⟨name, known⟩ | ⟨earlier, declaration, builds⟩
    · rcases reached.accounts.named name bar known with ⟨definition, defined, rfl⟩
      exact named definition defined bar waits known
    · exact builds.releaseFirst List.countP_le_length

/-- The events of a score strike no key that a later event of their tick releases, exactly
if the bars that are played by name do not either and strikes spare the releases of later
bars.  They spare them if all bars fit, and a bar whose body has at most one note list
strikes no such key. -/
theorem sequence_releaseFirst_iff {config : Config} {declarations : List Declaration}
    {events : List TimedEvent} (sequenced : sequence config declarations = .ok events) :
    let session := ((Session.ofConfig config).evaluate declarations).1
    let definitions := (Session.ofConfig config).context.definitions declarations
    (TimedEvent.ReleaseFirst events ↔
      (∀ definition ∈ definitions, ∀ bar ∈ session.buffer,
        session.context.bar? definition.1 = some bar → Event.ReleaseFirst bar.events) ∧
      Bar.SpareLater session.flush.1) ∧
    ((∀ bar ∈ session.flush.1, bar.Fits) → Bar.SpareLater session.flush.1) ∧
    ∀ definition ∈ definitions, definition.2.countP (·.isNotes) ≤ 1 →
      ∀ bar, session.context.bar? definition.1 = some bar → Event.ReleaseFirst bar.events := by
  intro session definitions
  have reached : Session.Reachable config definitions session := by
    have reached := (@Session.Reachable.start config).evaluate declarations
    rwa [List.append_nil] at reached
  rcases exists_bars_of_sequence sequenced with ⟨bars, compiled, rfl⟩
  obtain rfl := (Session.compile_eq_ok_iff.mp compiled).2
  refine ⟨?_, ?_, ?_⟩
  · rw [Timeline.releaseFirst_iff config.tempo reached.isOrdered_of_mem_flush,
      reached.forall_releaseFirst_flush_iff]
  · intro fits
    exact Bar.spareLater_of_fits fits (reached.forall_event_of_mem_flush reached.strikesLast)
  · intro definition defined few bar known
    rcases reached.builds_of_definition defined known with ⟨earlier, builds⟩
    exact builds.releaseFirst few

/-- Two voices that take turns, the one that starts first written first. -/
theorem sequence_releaseFirst_turns :
    let body : List Declaration := [.notes [.plain 'c'], .notes [.plain '-', .plain 'c']]
    let score : List Declaration := [.assign 'c' 60, .defineBar "turns" body, .play "turns"]
    ∃ events, sequence .standard score = .ok events ∧ TimedEvent.ReleaseFirst events := by
  intro body score
  let session := ((Session.ofConfig .standard).evaluate score).1
  have compiled : compile .standard score = .ok session.flush.1 :=
    Session.compile_eq_ok_iff.mpr ⟨by decide +kernel, rfl⟩
  have waits : ∀ bar ∈ session.buffer, Event.ReleaseFirst bar.events := by decide +kernel
  have reached := (@Session.Reachable.start .standard).evaluate score
  have fits : ∀ bar ∈ session.flush.1, bar.Fits :=
    (Bar.forall_fits_settle_iff (by simp) reached.wellTimed).mpr (by decide +kernel)
  have meters : session.flush.1.map (·.meter) = [.common] :=
    (Bar.map_meter_settle [] session.buffer).trans (by decide +kernel)
  have capacities := congrArg (List.map Meter.capacity) meters
  rw [List.map_map] at capacities
  have final : (session.flush.1.map (·.capacity)).sum < 4294967296 :=
    Nat.lt_of_le_of_lt (congrArg List.sum capacities).le (by decide)
  rcases exists_sequence_of_within (.inl rfl) compiled final fun bar member event inBar =>
    (Nat.le_add_right _ _).trans (fits bar member event inBar) with ⟨events, sequenced⟩
  rcases sequence_releaseFirst_iff sequenced with ⟨releaseFirst_iff, spared, _⟩
  exact ⟨events, sequenced,
    releaseFirst_iff.mpr ⟨fun _ _ bar member _ => waits bar member, spared fits⟩⟩

/-- Two voices that take turns, the one that starts later written first: it strikes the key
at the tick at which the other one releases it, and is cut. -/
theorem sequence_cuts_turn :
    let body : List Declaration := [.notes [.plain '-', .plain 'c'], .notes [.plain 'c']]
    let score : List Declaration := [.assign 'c' 60, .defineBar "turns" body, .play "turns"]
    ∃ events, sequence .standard score = .ok events ∧
      events.map (fun event => (event.message, event.tick)) =
        [(.voice 0 (.noteOn 60 100), 0), (.voice 0 (.noteOn 60 100), 960),
          (.voice 0 (.noteOff 60), 960), (.voice 0 (.noteOff 60), 1920)] ∧
      ¬ TimedEvent.ReleaseFirst events := by
  intro body score
  let struck : Event := ⟨.voice 0 (.noteOn 60 100), 0, 960, 0⟩
  let released : Event := ⟨.voice 0 (.noteOff 60), 960, 0, 0⟩
  let bar : Bar := ⟨.common, [struck, { struck with position := 960 }, released,
    { released with position := 1920 }]⟩
  have waits : ((Session.ofConfig .standard).evaluate score).1.buffer = [⟨.common,
      [{ struck with position := 960 }, { released with position := 1920 }, struck,
        released]⟩] := by decide +kernel
  have compiled : compile .standard score = .ok [bar] := by
    refine Session.compile_eq_ok_iff.mpr ⟨by decide +kernel, ?_⟩
    have sorted : [{ struck with position := 960 }, { released with position := 1920 }, struck,
        released].mergeSort Event.precedes = bar.events := by
      simp [List.mergeSort, Event.precedes, struck, released, bar]
    rw [Session.flush, waits]
    exact congrArg (fun events => [(⟨.common, events⟩ : Bar)]) sorted
  let events : List TimedEvent := [⟨struck.message, 0, 0⟩, ⟨struck.message, 960, 500000000⟩,
    ⟨released.message, 960, 500000000⟩, ⟨released.message, 1920, 1000000000⟩]
  have sequenced : sequence .standard score = .ok events := by
    have fits : Bar.TicksFit [bar] := .of_within (by decide) (by decide)
    have moments : Bar.moments 120 [bar] = events := by decide +kernel
    have sorted : events.mergeSort TimedEvent.precedes = events :=
      List.mergeSort_of_pairwise (by decide)
    refine sequence_eq_ok_iff.mpr ⟨[bar], compiled, ?_⟩
    exact (ofBars?_eq_some_iff_of_compile (.inl rfl) compiled).mpr
      ⟨fits, (congrArg (List.mergeSort · TimedEvent.precedes) moments).trans sorted⟩
  exact ⟨events, sequenced, rfl, by decide⟩

end MidiScore
