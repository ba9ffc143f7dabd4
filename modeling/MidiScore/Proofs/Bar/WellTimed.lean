import MidiScore.Proofs.Session.Reachable

/-!
# Where events stand in a bar

In every bar of a session tempos stand at the start, and so do all events of a bar
without sounding notes.  Both follow from what one declaration adds: messages at the
start, or the events of notes, of which at least one lasts.
-/

namespace MidiScore

namespace Bar

/-- Tempos, and the events of a bar in which nothing sounds, stand at its start. -/
structure WellTimed (bar : Bar) : Prop where
  tempo : ∀ event ∈ bar.events, event.message.tempo?.isSome → event.position = 0
  silent : (∀ event ∈ bar.events, event.duration = 0) →
    ∀ event ∈ bar.events, event.position = 0

theorem isZeroDuration_iff {bar : Bar} :
    bar.isZeroDuration = true ↔ bar.events ≠ [] ∧ ∀ event ∈ bar.events, event.duration = 0 := by
  simp [isZeroDuration]

theorem WellTimed.start_of_isZeroDuration {bar : Bar} (timed : bar.WellTimed)
    (zero : bar.isZeroDuration = true) : ∀ event ∈ bar.events, event.position = 0 :=
  timed.silent (isZeroDuration_iff.mp zero).2

end Bar

theorem Draft.Step.wellTimed {keys : KeyMap} {draft next : Draft} {declaration : Declaration}
    (timed : draft.bar.WellTimed) (step : Step keys draft declaration next) :
    next.bar.WellTimed := by
  constructor
  · refine step.forall_event timed.tempo (fun _ instant _ => instant.1) ?_
    intro _ _ _ _ sequenced event member isTempo
    rw [sequenced.tempo?_eq_none event member] at isTempo
    contradiction
  · rcases step.exists_added with ⟨added, events_eq, kind⟩
    rw [events_eq, List.forall_mem_append, List.forall_mem_append]
    rintro ⟨silentBefore, silentAdded⟩
    apply And.intro (timed.silent silentBefore)
    intro event member
    rcases kind with ⟨instant, _⟩ | ⟨list, _, sequenced, _⟩
    · exact (instant event member).1
    · -- notes that sound are not silent, so there is no such event
      obtain ⟨sounding, sounds, lasts⟩ :=
        sequenced.exists_duration_pos (List.ne_nil_of_mem member)
      exact absurd (silentAdded sounding sounds) (Nat.ne_of_gt lasts)

theorem Draft.wellTimed_of_steps {context : Context} {body : List Declaration} {draft : Draft}
    (run : (Draft.start context.scope context.signatures).steps context.keys body = .ok draft) :
    draft.bar.WellTimed := by
  have empty : (Draft.start context.scope context.signatures).bar.WellTimed :=
    ⟨by simp [Draft.start], by simp [Draft.start]⟩
  exact Draft.steps_invariant Draft.Step.wellTimed empty run

theorem Session.Reachable.wellTimed {config : Config}
    {definitions : List (String × List Declaration)} {session : Session}
    (reached : Reachable config definitions session) :
    ∀ bar ∈ session.buffer, bar.WellTimed :=
  reached.forall_bar Draft.wellTimed_of_steps

end MidiScore
