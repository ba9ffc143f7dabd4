import MidiScore.Proofs.Timeline.Placement

/-!
# One tempo for a bar

No ticks take no time at any tempo.  Where the events of a bar are in order and its tempos
stand at the start, a tempo therefore also holds for the events in front of it, and the
whole bar is timed by the last tempo heard, `Clock.placeEvents_eq`.
-/

namespace MidiScore

theorem nanosOfTicks_zero (tempo : Binary64) : nanosOfTicks tempo 0 = 0 := by
  -- the product is zero, and any quotient of zero becomes the whole number zero
  have product : Binary64.ofNat 0 * Binary64.ofNat nanosPerMinute = .finite false 0 0 := by
    decide +kernel
  rw [nanosOfTicks, product]
  cases tempo * Binary64.ofNat ticksPerQuarter with
  | nan => rfl
  | infinite negative => cases negative <;> rfl
  | finite negative significand exponent =>
      by_cases zero : significand = 0
      · subst zero
        rfl
      · have quotient : Binary64.finite false 0 0 / .finite negative significand exponent =
            .finite negative 0 0 := by
          simp [HDiv.hDiv, Div.div, Binary64.div, zero, Binary64.ofQuotient]
        rw [quotient]
        cases negative <;> rfl

namespace Event

/-- The last tempo of some events, or the one before them. -/
def tempoAfter (initial : UInt16) (events : List Event) : UInt16 :=
  (events.filterMap (·.message.tempo?)).getLast?.getD initial

theorem tempoAfter_append {initial : UInt16} {first second : List Event} :
    tempoAfter initial (first ++ second) = tempoAfter (tempoAfter initial first) second := by
  rw [tempoAfter, List.filterMap_append, List.getLast?_append, Option.getD_or]
  rfl

theorem tempoAfter_cons {initial : UInt16} {event : Event} {rest : List Event} :
    tempoAfter initial (event :: rest) =
      tempoAfter (event.message.tempo?.getD initial) rest := by
  rw [← List.singleton_append, tempoAfter_append]
  cases tempo : event.message.tempo? <;> simp [tempoAfter, tempo]

theorem tempoAfter_eq_of_none {initial : UInt16} {events : List Event}
    (noTempo : ∀ event ∈ events, event.message.tempo? = none) :
    tempoAfter initial events = initial := by
  rw [tempoAfter, List.filterMap_eq_nil_iff.mpr noTempo]
  rfl

/-- The events of a bar are in order, with all tempos at the start. -/
structure IsOrdered (events : List Event) : Prop where
  sorted : events.Pairwise fun first second => first.precedes second
  tempo : ∀ event ∈ events, event.message.tempo?.isSome → event.position = 0

end Event

namespace Clock

/-- The clock with the tempo that events leave. -/
def hearAll (clock : Clock) (events : List Event) : Clock :=
  { clock with tempo := Event.tempoAfter clock.tempo events }

/-- An event is timed alike by two tempos at the start of a bar. -/
theorem timed_hearAll_of_position_eq_zero {clock : Clock} {event : Event} (events : List Event)
    (start : event.position = 0) : (clock.hearAll events).timed event = clock.timed event := by
  simp [timed, hearAll, span, start, nanosOfTicks_zero]

/-- All events of a bar are timed by the tempo at its end. -/
theorem placeEvents_eq {clock : Clock} {events : List Event}
    (ordered : Event.IsOrdered events) :
    clock.placeEvents events = (events.map (clock.hearAll events).timed, clock.hearAll events) := by
  induction events generalizing clock with
  | nil => rfl
  | cons event rest ih =>
      rcases List.pairwise_cons.mp ordered.sorted with ⟨least, sorted⟩
      rcases List.forall_mem_cons.mp ordered.tempo with ⟨tempoHere, tempoLater⟩
      have heard : (clock.hear event.message).hearAll rest = clock.hearAll (event :: rest) := by
        rw [hearAll, hearAll, Event.tempoAfter_cons]
        rfl
      have here : (clock.hearAll (event :: rest)).timed event = clock.timed event := by
        by_cases start : event.position = 0
        · exact timed_hearAll_of_position_eq_zero _ start
        · -- behind the start there are no tempos any more
          have noTempo : ∀ other ∈ event :: rest, other.message.tempo? = none := by
            intro other member
            cases isTempo : other.message.tempo? with
            | none => rfl
            | some bpm =>
                have atStart := ordered.tempo other member (by rw [isTempo]; rfl)
                rcases List.mem_cons.mp member with rfl | later
                · contradiction
                · have after := least other later
                  simp only [Event.precedes, decide_eq_true_eq, atStart] at after
                  omega
          rw [hearAll, Event.tempoAfter_eq_of_none noTempo]
      rw [placeEvents, ih ⟨sorted, tempoLater⟩, heard, List.map_cons, here]

end Clock

end MidiScore
