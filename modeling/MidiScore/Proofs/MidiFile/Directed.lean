import MidiScore.Proofs.MidiFile.Tracks

/-!
# The conductor track, bar by bar

What a score says of itself stands at the start of its bars: all messages but those of notes
do.  Though the writer takes the first tempo, the meters and the messages of a song one after
the other and sorts them, the conductor track therefore reads as if it were written bar by
bar: the meter of the bar where it changes, and then what its events say, `conducted_eq`.
-/

namespace MidiScore

namespace MidiFile

/-- What a bar says of the score, in the order of its events. -/
def statements (bar : Bar) : List TrackEvent :=
  bar.events.filterMap (scoreEvent? ·.message)

/-- What bars say of the score, each at the tick where it starts. -/
def stated (tick : Nat) : List Bar → List (Nat × TrackEvent)
  | [] => []
  | bar :: rest => (statements bar).map (tick, ·) ++ stated (tick + bar.capacity) rest

/-- The meter of a bar after one with a meter, where it changes. -/
def meterChange (previous : Option Meter) (bar : Bar) : List TrackEvent :=
  if previous = some bar.meter then [] else [.description (meterDescription bar.meter)]

/-- Meters and statements of bars, bar by bar. -/
def directed (tick : Nat) (previous : Option Meter) : List Bar → List (Nat × TrackEvent)
  | [] => []
  | bar :: rest =>
      (meterChange previous bar ++ statements bar).map (tick, ·) ++
        directed (tick + bar.capacity) (some bar.meter) rest

end MidiFile

open MidiFile

/-! ## Statements stand at the start -/

/-- Whatever the bar says of the score stands at its start. -/
def Bar.StatesAtStart (bar : Bar) : Prop :=
  ∀ event ∈ bar.events, (scoreEvent? event.message).isSome → event.position = 0

/-- Notes say nothing of the score. -/
theorem Note.Sequence.scoreEvent?_eq_none {keys : KeyMap} {scale : Scale} {scope : Scope}
    {position : Nat} {notes : List Note} {events : List Event}
    (derived : Sequence keys scale scope position notes events) :
    ∀ event ∈ events, scoreEvent? event.message = none := by
  induction derived with
  | nil position => simp
  | rest _ _ ih => exact ih
  | note _ _ _ _ ih =>
      refine List.forall_mem_append.mpr ⟨fun event member => ?_, ih⟩
      rcases mem_events.mp member with rfl | ⟨_, rfl⟩ <;> rfl

theorem Draft.Step.statesAtStart {keys : KeyMap} {draft next : Draft} {declaration : Declaration}
    (start : draft.bar.StatesAtStart) (step : Step keys draft declaration next) :
    next.bar.StatesAtStart := by
  refine step.forall_event start (fun _ instant _ => instant.1) ?_
  intro _ _ _ _ sequenced event member states
  rw [sequenced.scoreEvent?_eq_none event member] at states
  contradiction

namespace Session

theorem Reachable.statesAtStart_of_mem_flush {config : Config}
    {definitions : List (String × List Declaration)} {session : Session}
    (reached : Reachable config definitions session) :
    ∀ bar ∈ session.flush.1, bar.StatesAtStart := by
  have waiting : ∀ bar ∈ session.buffer, bar.StatesAtStart :=
    reached.forall_bar fun run =>
      Draft.steps_invariant Draft.Step.statesAtStart (by simp [Bar.StatesAtStart, Draft.start]) run
  exact reached.forall_event_of_mem_flush waiting

end Session

namespace MidiFile

/-! ## The messages of a song -/

theorem filterMap_placeEvents {clock : Clock} {events : List Event}
    (start : ∀ event ∈ events, (scoreEvent? event.message).isSome → event.position = 0) :
    ((clock.placeEvents events).1.filterMap fun event =>
        (scoreEvent? event.message).map (event.tick, ·)) =
      (events.filterMap (scoreEvent? ·.message)).map (clock.tick, ·) := by
  have placed := congrArg (List.filterMap fun (entry : Nat × Message) =>
    (scoreEvent? entry.2).map (entry.1, ·)) (clock.map_placeEvents events)
  rw [List.filterMap_map, List.filterMap_map] at placed
  refine placed.trans ?_
  rw [List.map_filterMap]
  apply List.filterMap_congr
  intro event member
  rw [Function.comp_apply]
  cases states : scoreEvent? event.message with
  | none => rfl
  | some stated => rw [start event member (by rw [states]; rfl), Nat.add_zero]

theorem filterMap_placeBars (clock : Clock) {bars : List Bar}
    (start : ∀ bar ∈ bars, bar.StatesAtStart) :
    ((clock.placeBars bars).1.filterMap fun event =>
        (scoreEvent? event.message).map (event.tick, ·)) = stated clock.tick bars := by
  induction bars generalizing clock with
  | nil => rfl
  | cons bar rest ih =>
      rcases List.forall_mem_cons.mp start with ⟨startHere, startLater⟩
      rw [Clock.placeBars, List.filterMap_append, filterMap_placeEvents startHere, ih _ startLater,
        Clock.tick_advance, Clock.tick_placeEvents]
      rfl

/-! ## Order -/

section

variable {tick : Nat} {previous : Option Meter} {bars : List Bar}

/-- All that is said stands where a bar starts. -/
theorem exists_of_mem_directed {entry : Nat × TrackEvent}
    (member : entry ∈ directed tick previous bars) :
    ∃ index, entry.1 = tick + Bar.ticksBefore bars index := by
  induction bars generalizing tick previous with
  | nil => contradiction
  | cons bar rest ih =>
      rcases List.mem_append.mp member with here | later
      · rcases List.mem_map.mp here with ⟨_, _, rfl⟩
        exact ⟨0, rfl⟩
      · rcases ih later with ⟨index, tick_eq⟩
        exact ⟨index + 1, by simp [tick_eq, Bar.ticksBefore, Nat.add_assoc]⟩

theorem le_of_mem_directed {entry : Nat × TrackEvent}
    (member : entry ∈ directed tick previous bars) : tick ≤ entry.1 := by
  rcases exists_of_mem_directed member with ⟨index, tick_eq⟩
  exact tick_eq ▸ Nat.le_add_right _ _

theorem pairwise_directed (tick : Nat) (previous : Option Meter) (bars : List Bar) :
    (directed tick previous bars).Pairwise fun first second => first.1 ≤ second.1 := by
  induction bars generalizing tick previous with
  | nil => exact .nil
  | cons bar rest ih =>
      refine List.pairwise_append.mpr ⟨?_, ih _ _, fun first here second later => ?_⟩
      · exact List.pairwise_map.mpr (List.pairwise_of_forall fun _ _ => Nat.le_refl _)
      · rcases List.mem_map.mp here with ⟨_, _, rfl⟩
        exact Nat.le_trans (Nat.le_add_right _ _) (le_of_mem_directed later)

theorem stated_sublist_directed : (stated tick bars).Sublist (directed tick previous bars) := by
  induction bars generalizing tick previous with
  | nil => exact .slnil
  | cons bar rest ih =>
      exact ((List.sublist_append_right _ _).map _).append ih

theorem meterChanges_cons (bar : Bar) (rest : List Bar) :
    meterChanges tick previous (bar :: rest) =
      (meterChange previous bar).map (tick, ·) ++
        meterChanges (tick + bar.capacity) (some bar.meter) rest := by
  rw [meterChanges, meterChange]
  split <;> rfl

/-- Nothing is said before the bars start. -/
theorem filter_directed_eq_nil (among : Nat → Bool)
    (none : ∀ other, tick ≤ other → among other = false) :
    (directed tick previous bars).filter (among ·.1) = [] := by
  refine List.filter_eq_nil_iff.mpr fun entry member => ?_
  rw [none entry.1 (le_of_mem_directed member)]
  exact Bool.false_ne_true

/-- At each tick the meter comes before the statements. -/
theorem filter_directed (lasting : ∀ bar ∈ bars, 0 < bar.capacity) (value : Nat) :
    (directed tick previous bars).filter (·.1 = value) =
      (meterChanges tick previous bars ++ stated tick bars).filter (·.1 = value) := by
  induction bars generalizing tick previous with
  | nil => rfl
  | cons bar rest ih =>
      rcases List.forall_mem_cons.mp lasting with ⟨lastingHere, lastingLater⟩
      have later : (directed (tick + bar.capacity) (some bar.meter) rest).filter (·.1 = value) =
          _ := ih lastingLater
      have split : (directed tick previous (bar :: rest)).filter (·.1 = value) =
          ((meterChange previous bar).map (tick, ·)).filter (·.1 = value) ++
            (((statements bar).map (tick, ·)).filter (·.1 = value) ++
              (directed (tick + bar.capacity) (some bar.meter) rest).filter (·.1 = value)) := by
        rw [directed, List.map_append, List.filter_append, List.filter_append, List.append_assoc]
      rw [split, later, meterChanges_cons, stated]
      simp only [List.filter_append, List.append_assoc]
      by_cases here : tick = value
      · -- the other bars start later
        have after : (directed (tick + bar.capacity) (some bar.meter) rest).filter
            (·.1 = value) = [] :=
          filter_directed_eq_nil (· = value) fun other bounded => decide_eq_false (by omega)
        rw [later, List.filter_append] at after
        rw [(List.append_eq_nil_iff.mp after).1, (List.append_eq_nil_iff.mp after).2]
        simp
      · have none (events : List TrackEvent) :
            (events.map (tick, ·)).filter (·.1 = value) = [] := by
          rw [List.filter_map]
          simp [here]
        rw [none, none]
        rfl

end

/-- What a song says of the score, in order of tick, is what its bars say. -/
theorem filterMap_ofBars {bars : List Bar} (tempo : UInt16)
    (start : ∀ bar ∈ bars, bar.StatesAtStart) :
    ((Timeline.ofBars tempo bars).filterMap fun event =>
        (scoreEvent? event.message).map (event.tick, ·)) = stated 0 bars := by
  have placed : (((Clock.start tempo).placeBars bars).1.filterMap fun event =>
      (scoreEvent? event.message).map (event.tick, ·)) = stated 0 bars :=
    filterMap_placeBars (.start tempo) start
  have ordered : (stated 0 bars).Pairwise fun first second => first.1 ≤ second.1 :=
    (pairwise_directed 0 none bars).sublist stated_sublist_directed
  rw [← placed, List.pairwise_filterMap] at ordered
  refine (filterMap_key_mergeSort (ordered.imp ?_)).trans placed
  intro first second before isFirst isSecond
  rw [Option.isSome_map] at isFirst isSecond
  rcases Option.isSome_iff_exists.mp isFirst with ⟨one, states⟩
  rcases Option.isSome_iff_exists.mp isSecond with ⟨other, statesSecond⟩
  exact before _ (by rw [states]; rfl) _ (by rw [statesSecond]; rfl)

/-- The conductor track takes the first tempo and is then written bar by bar. -/
theorem conducted_eq {tempo : UInt16} {bars : List Bar}
    (start : ∀ bar ∈ bars, bar.StatesAtStart) (lasting : ∀ bar ∈ bars, 0 < bar.capacity) :
    conducted tempo bars = (0, tempoEvent tempo) :: directed 0 none bars := by
  rw [conducted, filterMap_ofBars tempo start, ← meterChanges_eq_meterEvents]
  apply mergeSort_key_eq
  · exact List.pairwise_cons.mpr ⟨fun _ _ => Nat.zero_le _, pairwise_directed 0 none bars⟩
  · intro value
    rw [List.filter_cons, List.filter_cons, filter_directed lasting]

end MidiFile

end MidiScore
