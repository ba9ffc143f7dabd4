import Mathlib.Algebra.Order.Ring.Nat
import MidiScore.Proofs.Config.Accepted
import MidiScore.Proofs.Flush.Groups

/-!
# The time that a flush keeps

Events that wait make a bar without events one that takes up no time, and the silence
of that bar is lost.  `Bar.kept` are the bars whose time is left; a flush returns their
meters, `map_meter_lasting_settle`.  So it keeps all time exactly when no bar without
events directly follows one of zero duration.
-/

namespace MidiScore

namespace Bar

/-- The bars that take up time. -/
def lasting (bars : List Bar) : List Bar :=
  bars.filter (!·.isZeroDuration)

/-- The bars whose time a flush keeps.  A bar without events loses its time if any events
wait for it. -/
def kept (waits : Bool) : List Bar → List Bar
  | [] => []
  | bar :: rest =>
      if bar.isZeroDuration then kept true rest
      else if waits && bar.events.isEmpty then kept false rest
      else bar :: kept false rest

/-- No bar without events directly follows one of zero duration. -/
def Undisturbed (bars : List Bar) : Prop :=
  bars.IsChain fun first second => first.isZeroDuration → second.events ≠ []

instance (bars : List Bar) : Decidable (Undisturbed bars) :=
  inferInstanceAs (Decidable (List.IsChain _ _))

/-- The time that bars take at a tempo, one after another, where all of them have one. -/
def totalDuration? (tempo : Binary64) (bars : List Bar) : Option Nat :=
  (bars.mapM fun (bar : Bar) => bar.duration? tempo).map List.sum

/-! ## The bars that are kept -/

theorem lasting_cons_of_zero {bar : Bar} {rest : List Bar} (zero : bar.isZeroDuration = true) :
    lasting (bar :: rest) = lasting rest :=
  List.filter_cons_of_neg (by simp [zero])

theorem lasting_cons_of_lasting {bar : Bar} {rest : List Bar}
    (takesTime : bar.isZeroDuration = false) : lasting (bar :: rest) = bar :: lasting rest :=
  List.filter_cons_of_pos (by simp [takesTime])

/-- Whether a bar that comes out takes up time rests on its events in any order. -/
theorem isZeroDuration_ofEvents_iff {meter : Meter} {events : List Event} :
    (ofEvents meter events).isZeroDuration = true ↔
      events ≠ [] ∧ ∀ event ∈ events, event.duration = 0 := by
  have empty_iff : events.mergeSort Event.precedes = [] ↔ events = [] := by
    rw [← List.length_eq_zero_iff, List.length_mergeSort, List.length_eq_zero_iff]
  simp [isZeroDuration_iff, ofEvents, empty_iff]

/-- What waits takes the time of a bar exactly if that bar has no events of its own. -/
theorem isZeroDuration_ofEvents_append_iff {waiting : List Event} {bar : Bar}
    (instant : ∀ event ∈ waiting, event.duration = 0) (takesTime : bar.isZeroDuration = false) :
    (ofEvents bar.meter (waiting ++ bar.events)).isZeroDuration = true ↔
      waiting ≠ [] ∧ bar.events = [] := by
  have sounds : bar.events ≠ [] → ¬∀ event ∈ bar.events, event.duration = 0 := by
    intro nonempty silent
    rw [isZeroDuration_iff.mpr ⟨nonempty, silent⟩] at takesTime
    contradiction
  rw [isZeroDuration_ofEvents_iff, List.forall_mem_append]
  constructor
  · rintro ⟨nonempty, _, silent⟩
    have empty : bar.events = [] := by
      by_contra nonempty
      exact sounds nonempty silent
    rw [empty, List.append_nil] at nonempty
    exact ⟨nonempty, empty⟩
  · rintro ⟨nonempty, empty⟩
    rw [empty, List.append_nil]
    exact ⟨nonempty, instant, by simp⟩

theorem map_meter_lasting_settle {waiting : List Event} (bars : List Bar)
    (instant : ∀ event ∈ waiting, event.duration = 0) :
    (lasting (settle waiting bars)).map (·.meter) =
      (kept (!waiting.isEmpty) bars).map (·.meter) := by
  induction bars generalizing waiting with
  | nil => rfl
  | cons bar rest ih =>
      cases zero : bar.isZeroDuration with
      | true =>
          rcases isZeroDuration_iff.mp zero with ⟨nonempty, silent⟩
          have grown : ∀ event ∈ waiting ++ bar.events, event.duration = 0 :=
            List.forall_mem_append.mpr ⟨instant, silent⟩
          have sounds : waiting ++ bar.events ≠ [] := by simp [nonempty]
          rw [kept, if_pos zero]
          cases rest with
          | nil =>
              have still : (ofEvents bar.meter (waiting ++ bar.events)).isZeroDuration = true :=
                isZeroDuration_ofEvents_iff.mpr ⟨sounds, grown⟩
              rw [settle_singleton_of_zero zero, lasting_cons_of_zero still]
              rfl
          | cons next others =>
              rw [settle_cons_cons_of_zero zero, ih grown, List.isEmpty_eq_false_iff.mpr sounds]
              rfl
      | false =>
          have later : (lasting (settle [] rest)).map (·.meter) = (kept false rest).map (·.meter) :=
            ih (by simp)
          have loses_iff := isZeroDuration_ofEvents_append_iff instant zero
          rw [settle_cons_of_lasting zero, kept, if_neg (Bool.eq_false_iff.mp zero)]
          by_cases loses : waiting ≠ [] ∧ bar.events = []
          · rw [lasting_cons_of_zero (loses_iff.mpr loses), if_pos (by simpa using loses), later]
          · have stays := Bool.eq_false_iff.mpr (mt loses_iff.mp loses)
            rw [lasting_cons_of_lasting stays, if_neg (by simpa using loses), List.map_cons,
              List.map_cons, later, ofEvents]

theorem kept_sublist (waits : Bool) (bars : List Bar) :
    (kept waits bars).Sublist (lasting bars) := by
  induction bars generalizing waits with
  | nil => exact .slnil
  | cons bar rest ih =>
      rw [kept]
      split
      · rename_i zero
        rw [lasting_cons_of_zero zero]
        exact ih true
      · rename_i takesTime
        rw [lasting_cons_of_lasting (Bool.eq_false_iff.mpr takesTime)]
        split
        · exact (ih false).cons bar
        · exact (ih false).cons_cons bar

/-- All time is kept exactly if no bar without events has any that wait for it. -/
theorem kept_eq_lasting_iff {waits : Bool} {bars : List Bar} :
    kept waits bars = lasting bars ↔
      (waits = true → ∀ bar ∈ bars.head?, bar.events ≠ []) ∧ Undisturbed bars := by
  induction bars generalizing waits with
  | nil => simp [kept, lasting, Undisturbed]
  | cons bar rest ih =>
      rw [kept, Undisturbed, List.isChain_cons, ← Undisturbed]
      cases zero : bar.isZeroDuration with
      | true =>
          have nonempty := (isZeroDuration_iff.mp zero).1
          rw [if_pos rfl, lasting_cons_of_zero zero, ih]
          simp [nonempty]
      | false =>
          rw [if_neg Bool.false_ne_true, lasting_cons_of_lasting zero]
          split
          · -- the bar is lost, and no later one makes up for it
            rename_i loses
            have shorter := (kept_sublist false rest).length_le
            constructor
            · intro same
              have sameLength := congrArg List.length same
              rw [List.length_cons] at sameLength
              omega
            · rintro ⟨sounds, _⟩
              rcases Bool.and_eq_true_iff.mp loses with ⟨waiting, empty⟩
              exact absurd (List.isEmpty_iff.mp empty) (sounds waiting bar rfl)
          · rename_i stays
            have sounds : waits = true → bar.events ≠ [] := by simpa using stays
            rw [List.cons_eq_cons, ih]
            simpa [zero] using fun _ => sounds

theorem map_kept_eq_map_lasting_iff {α : Type} {waits : Bool} {bars : List Bar}
    (value : Bar → α) :
    (kept waits bars).map value = (lasting bars).map value ↔ kept waits bars = lasting bars := by
  constructor
  · intro same
    have sameLength := congrArg List.length same
    rw [List.length_map, List.length_map] at sameLength
    exact (kept_sublist waits bars).eq_of_length sameLength
  · intro same
    rw [same]

/-! ## Durations -/

theorem totalDuration?_cons {tempo : Binary64} {bar : Bar} {rest : List Bar} :
    totalDuration? tempo (bar :: rest) =
      (bar.duration? tempo).bind fun time => (totalDuration? tempo rest).map (time + ·) := by
  rw [totalDuration?, totalDuration?, List.mapM_cons]
  cases bar.duration? tempo with
  | none => rfl
  | some time => cases rest.mapM fun (bar : Bar) => bar.duration? tempo <;> simp

/-- The time of bars is that of empty bars under the meters of those that last. -/
theorem totalDuration?_eq {tempo : Binary64} (bars : List Bar) :
    totalDuration? tempo bars =
      totalDuration? tempo (((lasting bars).map (·.meter)).map fun meter => ⟨meter, []⟩) := by
  induction bars with
  | nil => rfl
  | cons bar rest ih =>
      rw [totalDuration?_cons]
      cases zero : bar.isZeroDuration with
      | true =>
          rw [lasting_cons_of_zero zero, ← ih, duration?, if_pos zero]
          simp
      | false =>
          have empty : bar.duration? tempo = (Bar.mk bar.meter []).duration? tempo := by
            rw [duration?, zero]
            rfl
          rw [lasting_cons_of_lasting zero, List.map_cons, List.map_cons, totalDuration?_cons,
            ← ih, empty]

theorem isSome_totalDuration? {tempo : Binary64} {bars : List Bar}
    (measurable : ∀ bar ∈ bars, bar.meter.isMeasurable = true) :
    (totalDuration? tempo bars).isSome := by
  induction bars with
  | nil => simp [totalDuration?]
  | cons bar rest ih =>
      rcases List.forall_mem_cons.mp measurable with ⟨here, later⟩
      rcases Option.isSome_iff_exists.mp (ih later) with ⟨total, total_eq⟩
      rw [totalDuration?_cons, total_eq, duration?, capacity?, if_pos here]
      split <;> rfl

end Bar

namespace Session

theorem map_meter_lasting_flush (session : Session) :
    (Bar.lasting session.flush.1).map (·.meter) =
      (Bar.kept false session.buffer).map (·.meter) :=
  Bar.map_meter_lasting_settle session.buffer (by simp)

/-- A flush keeps the capacities of the bars that last, and with them the duration at every
tempo, exactly when no bar without events directly follows one of zero duration.  In any
case it keeps those of `Bar.kept`. -/
theorem flush_keeps_time_iff {config : Config}
    {definitions : List (String × List Declaration)} {session : Session}
    (reached : Reachable config definitions session) :
    ((Bar.lasting session.flush.1).map (·.capacity) =
        (Bar.lasting session.buffer).map (·.capacity) ∧
      (∀ tempo, Bar.totalDuration? tempo session.flush.1 =
        Bar.totalDuration? tempo session.buffer) ↔ Bar.Undisturbed session.buffer) ∧
    (Bar.lasting session.flush.1).map (·.meter) =
      (Bar.kept false session.buffer).map (·.meter) ∧
    (config.IsAccepted → ∀ tempo, (Bar.totalDuration? tempo session.flush.1).isSome ∧
      (Bar.totalDuration? tempo session.buffer).isSome) := by
  have meters := map_meter_lasting_flush session
  have capacities := congrArg (List.map Meter.capacity) meters
  simp only [List.map_map] at capacities
  have undisturbed_iff : Bar.kept false session.buffer = Bar.lasting session.buffer ↔
      Bar.Undisturbed session.buffer := by
    simp [Bar.kept_eq_lasting_iff]
  constructor
  · rw [← undisturbed_iff]
    constructor
    · rintro ⟨same, _⟩
      exact (Bar.map_kept_eq_map_lasting_iff Bar.capacity).mp (capacities.symm.trans same)
    · intro keeps
      rw [keeps] at capacities meters
      apply And.intro capacities
      intro tempo
      rw [Bar.totalDuration?_eq session.flush.1, meters, ← Bar.totalDuration?_eq]
  · apply And.intro meters
    intro accepted tempo
    have measurable : ∀ bar ∈ session.buffer, bar.meter.isMeasurable = true :=
      fun bar member => Meter.isMeasurable_of_isValid (reached.meter_isValid accepted bar member)
    apply And.intro _ (Bar.isSome_totalDuration? measurable)
    apply Bar.isSome_totalDuration?
    intro bar member
    rcases Bar.exists_meter_of_mem_settle member with ⟨waited, inBuffer, meter_eq⟩
    exact meter_eq ▸ measurable waited inBuffer

/-- A tempo in front of a note takes no time from it. -/
theorem flush_keeps_time_tempo_note :
    let session :=
      ((ofConfig .standard).evaluate [.assign 'c' 60, .tempo 60, .notes [.plain 'c']]).1
    Reachable .standard [] session ∧ Bar.Undisturbed session.buffer ∧
      (Bar.lasting session.flush.1).map (·.capacity) =
        (Bar.lasting session.buffer).map (·.capacity) ∧
      ∀ tempo, Bar.totalDuration? tempo session.flush.1 =
          Bar.totalDuration? tempo session.buffer ∧
        (Bar.totalDuration? tempo session.flush.1).isSome := by
  intro session
  have reached : Reachable .standard [] session :=
    .evaluate .start [.assign 'c' 60, .tempo 60, .notes [.plain 'c']]
  have undisturbed : Bar.Undisturbed session.buffer := by decide
  rcases flush_keeps_time_iff reached with ⟨keeps_iff, _, measured⟩
  rcases keeps_iff.mpr undisturbed with ⟨capacities, durations⟩
  exact ⟨reached, undisturbed, capacities,
    fun tempo => ⟨durations tempo, (measured (.inl rfl) tempo).1⟩⟩

/-- A tempo in front of a rest takes all of its time. -/
theorem flush_loses_time_tempo_rest :
    let session := ((ofConfig .standard).evaluate [.tempo 60, .notes [.plain '-']]).1
    Reachable .standard [] session ∧
      (Bar.lasting session.buffer).map (·.capacity) = [3840] ∧
      (Bar.lasting session.flush.1).map (·.capacity) = [] :=
  ⟨.evaluate .start [.tempo 60, .notes [.plain '-']], by decide, by decide +kernel⟩

end Session

end MidiScore
