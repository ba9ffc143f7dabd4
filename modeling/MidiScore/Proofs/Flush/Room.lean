import MidiScore.Proofs.Bar.Room
import MidiScore.Proofs.Flush.Groups
import MidiScore.Proofs.Session.Origin

/-!
# Room in the bars of a flush

A flush returns bars that fit exactly if the bars that wait fit: what it puts in front of
a bar stands at its start and takes no time.  Of the bars that wait, those that a single
declaration built fit, so that only the bodies of bars played by name are in question.
-/

namespace MidiScore

namespace Bar

theorem reach_eq_zero_of_isZeroDuration {bar : Bar} (timed : bar.WellTimed)
    (zero : bar.isZeroDuration = true) : ∀ event ∈ bar.events, event.reach = 0 := by
  intro event member
  have position := timed.start_of_isZeroDuration zero event member
  have duration := (isZeroDuration_iff.mp zero).2 event member
  rw [Event.reach, position, duration]

/-- Events that are over at the start of a bar leave its room as it is. -/
theorem fits_ofEvents_append_iff {waiting : List Event} {bar : Bar}
    (ended : ∀ event ∈ waiting, event.reach = 0) :
    (ofEvents bar.meter (waiting ++ bar.events)).Fits ↔ bar.Fits := by
  have waitingFits : ∀ event ∈ waiting, event.reach ≤ bar.capacity := by
    intro event member
    rw [ended event member]
    exact Nat.zero_le _
  have sorted : (ofEvents bar.meter (waiting ++ bar.events)).Fits ↔
      ∀ event ∈ waiting ++ bar.events, event.reach ≤ bar.capacity := by
    simp only [Fits, ofEvents, List.mem_mergeSort, capacity]
  rw [sorted, List.forall_mem_append, and_iff_right waitingFits, Fits]

theorem forall_fits_settle_iff {waiting : List Event} {bars : List Bar}
    (ended : ∀ event ∈ waiting, event.reach = 0) (timed : ∀ bar ∈ bars, bar.WellTimed) :
    (∀ bar ∈ settle waiting bars, bar.Fits) ↔ ∀ bar ∈ bars, bar.Fits := by
  apply forall_settle_iff Fits (·.reach = 0) (fun front => fits_ofEvents_append_iff front) _ ended
  intro bar member zero
  have endedHere := reach_eq_zero_of_isZeroDuration (timed bar member) zero
  exact ⟨fun event inBar => by simp [endedHere event inBar], endedHere⟩

end Bar

namespace Session

/-- Every event of a flush is over when its bar is, exactly when the body of every bar
that was played by name leaves room for its notes. -/
theorem flush_fits_iff {config : Config} {definitions : List (String × List Declaration)}
    {session : Session} (reached : Reachable config definitions session) :
    (∀ bar ∈ session.flush.1, bar.Fits) ↔
      ∀ definition ∈ definitions, ∀ bar ∈ session.buffer,
        session.context.bar? definition.1 = some bar →
          Declaration.LeavesRoom definition.2 := by
  rw [flush, Bar.forall_fits_settle_iff (by simp) reached.wellTimed]
  constructor
  · intro fits definition defined bar waits known
    rcases reached.builds_of_definition defined known with ⟨earlier, builds⟩
    exact builds.fits_iff.mp (fits bar waits)
  · intro room bar waits
    rcases reached.isSource bar waits with ⟨name, known⟩ | ⟨earlier, declaration, builds⟩
    · rcases reached.accounts.named name bar known with ⟨definition, defined, rfl⟩
      rcases reached.builds_of_definition defined known with ⟨earlier, builds⟩
      exact builds.fits_iff.mpr (room definition defined bar waits known)
    · exact builds.fits_iff.mpr (Declaration.leavesRoom_singleton declaration)

/-- A bar that grows after its first note list has room for it. -/
theorem flush_fits_growing_bar :
    let body : List Declaration :=
      [.timeSignature ⟨1, 4⟩, .notes [.plain 'c'], .timeSignature ⟨2, 4⟩,
        .notes [.plain 'c', .plain 'c']]
    let session := ((ofConfig .standard).evaluate
      [.assign 'c' 60, .defineBar "growing" body, .play "growing"]).1
    Reachable .standard [("growing", body)] session ∧
      session.flush.1.map (·.capacity) = [1920] ∧ ∀ bar ∈ session.flush.1, bar.Fits := by
  intro body session
  have reached : Reachable .standard [("growing", body)] session :=
    .evaluate .start [.assign 'c' 60, .defineBar "growing" body, .play "growing"]
  refine ⟨reached, by decide +kernel, (flush_fits_iff reached).mpr ?_⟩
  simp only [List.forall_mem_singleton]
  intro bar _ _
  decide

/-- A bar that shrinks after its note list is over before its last note is. -/
theorem flush_overruns_shrinking_bar :
    let body : List Declaration := [.notes [.plain 'c', .plain 'c'], .timeSignature ⟨1, 4⟩]
    let session := ((ofConfig .standard).evaluate
      [.assign 'c' 60, .defineBar "shrinking" body, .play "shrinking"]).1
    Reachable .standard [("shrinking", body)] session ∧
      session.flush.1.map (·.capacity) = [960] ∧ ¬∀ bar ∈ session.flush.1, bar.Fits := by
  intro body session
  have reached : Reachable .standard [("shrinking", body)] session :=
    .evaluate .start [.assign 'c' 60, .defineBar "shrinking" body, .play "shrinking"]
  refine ⟨reached, by decide +kernel, ?_⟩
  rw [flush, Bar.forall_fits_settle_iff (by simp) reached.wellTimed]
  decide

end Session

end MidiScore
