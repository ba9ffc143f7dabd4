import MidiScore.Proofs.Flush.Parts

/-!
# Flushing at a cut

A session may be flushed once, or at a cut between its declarations as well.  If the last bar
in front of the cut takes up time, the bars of the single flush are those of the two in a row.
Otherwise the first flush ends with a bar that only is there because of the cut.  Its events
stand at the start of a bar and in order, so the single flush has them, as they are, in front
of the first bar from behind the cut, whatever that bar is.
-/

namespace MidiScore

namespace Bar

/-- Bars with events put in front of those of the first one. -/
def precededBy (events : List Event) : List Bar → List Bar
  | [] => []
  | first :: rest => ⟨first.meter, events ++ first.events⟩ :: rest

theorem ofEvents_append_of_start {front rest : List Event} (meter : Meter)
    (start : ∀ event ∈ front, event.position = 0) :
    ofEvents meter (front ++ rest) = ⟨meter, front ++ (ofEvents meter rest).events⟩ := by
  rw [ofEvents, Event.mergeSort_append_of_start start, ofEvents]

theorem ofEvents_of_start {events : List Event} (meter : Meter)
    (start : ∀ event ∈ events, event.position = 0) : ofEvents meter events = ⟨meter, events⟩ := by
  have alone : ofEvents meter (events ++ []) = ⟨meter, events ++ (ofEvents meter []).events⟩ :=
    ofEvents_append_of_start meter start
  simpa [ofEvents] using alone

/-- Events at the start of a bar stay in front of all that waits behind them and of the bar
that takes them up. -/
theorem settle_append_waiting {front : List Event} (waiting : List Event) (bars : List Bar)
    (start : ∀ event ∈ front, event.position = 0) :
    settle (front ++ waiting) bars = precededBy front (settle waiting bars) := by
  induction bars generalizing waiting with
  | nil => rfl
  | cons bar rest ih =>
      cases zero : bar.isZeroDuration with
      | false =>
          rw [settle_cons_of_lasting zero, settle_cons_of_lasting zero, List.append_assoc,
            ofEvents_append_of_start bar.meter start]
          rfl
      | true =>
          cases rest with
          | nil =>
              rw [settle_singleton_of_zero zero, settle_singleton_of_zero zero,
                List.append_assoc, ofEvents_append_of_start bar.meter start]
              rfl
          | cons next others =>
              rw [settle_cons_cons_of_zero zero, settle_cons_cons_of_zero zero,
                List.append_assoc]
              exact ih (waiting ++ bar.events)

theorem settle_ne_nil {waiting : List Event} {bars : List Bar} (nonempty : bars ≠ []) :
    settle waiting bars ≠ [] := by
  induction bars generalizing waiting with
  | nil => contradiction
  | cons bar rest ih =>
      cases zero : bar.isZeroDuration with
      | false => simp [settle_cons_of_lasting zero]
      | true =>
          cases rest with
          | nil => simp [settle_singleton_of_zero zero]
          | cons next others =>
              rw [settle_cons_cons_of_zero zero]
              exact ih (List.cons_ne_nil next others)

/-- The bars at the end of a part that take no time have their events at the start. -/
theorem start_of_mem_rtakeWhile {part : List Bar} (timed : ∀ bar ∈ part, bar.WellTimed) :
    ∀ event ∈ (part.rtakeWhile (·.isZeroDuration)).flatMap (·.events), event.position = 0 := by
  intro event member
  rcases List.mem_flatMap.mp member with ⟨bar, atEnd, inBar⟩
  have inPart : bar ∈ part := (List.rtakeWhile_suffix _ part).subset atEnd
  have zero : bar.isZeroDuration = true := List.mem_rtakeWhile_imp atEnd
  exact (timed bar inPart).start_of_isZeroDuration zero event inBar

/-- If the last bar of a part takes no time, the bar that is left over goes as it is in front
of the events of what follows, and stays if nothing does. -/
theorem settle_append_of_zero {front rest : List Bar} {last : Bar}
    (timed : ∀ bar ∈ front ++ [last], bar.WellTimed) (zero : last.isZeroDuration = true) :
    ∃ others leftover, settle [] (front ++ [last]) = others ++ [leftover] ∧
      (settle [] rest = [] → settle [] (front ++ [last] ++ rest) = settle [] (front ++ [last])) ∧
      (settle [] rest ≠ [] → settle [] (front ++ [last] ++ rest) =
        others ++ precededBy leftover.events (settle [] rest)) := by
  have start := start_of_mem_rtakeWhile timed
  have flushed := settle_eq_append_leftover? (front ++ [last])
  rw [leftover?_concat_of_zero zero, Option.toList_some, ofEvents_of_start last.meter start]
    at flushed
  refine ⟨_, _, flushed, fun silent => ?_, fun sounding => ?_⟩
  · obtain rfl : rest = [] := by
      by_contra nonempty
      exact settle_ne_nil nonempty silent
    rw [List.append_nil]
  · have nonempty : rest ≠ [] := by
      rintro rfl
      exact sounding rfl
    have waiting := settle_append_waiting [] rest start
    rw [List.append_nil] at waiting
    rw [settle_append nonempty, waiting]

end Bar

/-- Declarations in a row that are accepted up to a cut and from there on are accepted. -/
theorem Context.run_append_eq_ok {context middle final : Context}
    {first second : List Declaration} {bars more : List Bar}
    (ran : context.run first = (middle, .ok bars))
    (continued : middle.run second = (final, .ok more)) :
    context.run (first ++ second) = (final, .ok (bars ++ more)) := by
  rw [run_append_of_ok ran, continued]
  rfl

namespace Session

/-- A session that is flushed at a cut and again at the end gives the bars of a single flush,
if nothing waits at the cut or the last bar there takes up time.  If that bar takes none, it
comes out at the cut as a bar of its own, and all that the single flush does otherwise is to
put the events of this bar, as they are, in front of the first bar from behind the cut, or to
leave it there if nothing follows. -/
theorem Reachable.flush_of_split {config : Config}
    {definitions : List (String × List Declaration)} {session middle final : Session}
    (reached : Reachable config definitions session) {first second : List Declaration}
    (accepted : session.evaluate first = (middle, none))
    (continued : middle.flush.2.evaluate second = (final, none)) :
    ∃ whole, session.evaluate (first ++ second) = (whole, none) ∧
      whole.context = final.context ∧
      ((∀ last ∈ middle.buffer.getLast?, last.isZeroDuration = false) →
        whole.flush.1 = middle.flush.1 ++ final.flush.1) ∧
      ∀ last ∈ middle.buffer.getLast?, last.isZeroDuration = true →
        ∃ others leftover, middle.flush.1 = others ++ [leftover] ∧
          (final.flush.1 = [] → whole.flush.1 = middle.flush.1) ∧
          (final.flush.1 ≠ [] →
            whole.flush.1 = others ++ Bar.precededBy leftover.events final.flush.1) := by
  rcases evaluate_eq_none_iff_run.mp accepted with ⟨bars, ran, middle_eq⟩
  rcases evaluate_eq_none_iff_run.mp continued with ⟨more, ranOn, final_eq⟩
  have timed : ∀ bar ∈ middle.buffer, bar.WellTimed := by
    have evaluated := (reached.evaluate first).wellTimed
    rwa [accepted] at evaluated
  have whole : session.evaluate (first ++ second) =
      (⟨final.context, middle.buffer ++ final.buffer⟩, none) := by
    apply evaluate_eq_none_iff_run.mpr
    refine ⟨bars ++ more, Context.run_append_eq_ok ran ranOn, ?_⟩
    change middle.buffer ++ final.buffer = session.buffer ++ (bars ++ more)
    rw [middle_eq, final_eq, List.append_assoc]
    rfl
  refine ⟨_, whole, rfl, Bar.settle_append_of_lasting, ?_⟩
  intro last isLast zero
  obtain ⟨front, split⟩ : ∃ front, middle.buffer = front ++ [last] :=
    List.getLast?_eq_some_iff.mp isLast
  simp only [Session.flush, split] at timed ⊢
  exact Bar.settle_append_of_zero timed zero

/-- A tempo and a start wait at the cut, and a stop and a note follow: the single flush has
all of them in one bar. -/
theorem flush_of_split_start_stop :
    let first : List Declaration := [.assign 'c' 60, .notes [.plain 'c'], .tempo 60, .start]
    let second : List Declaration := [.stop, .notes [.plain 'c']]
    let middle := ((ofConfig .standard).evaluate first).1
    let final := (middle.flush.2.evaluate second).1
    let whole := ((ofConfig .standard).evaluate (first ++ second)).1
    middle.buffer.map (·.isZeroDuration) = [false, true, true] ∧
      final.buffer.map (·.isZeroDuration) = [true, false] ∧
      ∃ others leftover, middle.flush.1 = others ++ [leftover] ∧
        whole.flush.1 = others ++ Bar.precededBy leftover.events final.flush.1 := by
  intro first second middle final whole
  have accepted : (ofConfig .standard).evaluate first = (middle, none) := by decide +kernel
  have continued : middle.flush.2.evaluate second = (final, none) := by decide +kernel
  have isLast : middle.buffer.getLast? = some ⟨.common, [⟨.start, 0, 0, 0⟩]⟩ := by
    decide +kernel
  have follows : final.buffer ≠ [] := by decide +kernel
  refine ⟨by decide +kernel, by decide +kernel, ?_⟩
  rcases Reachable.start.flush_of_split accepted continued with ⟨same, evaluated, _, _, waits⟩
  obtain rfl : whole = same := congrArg Prod.fst evaluated
  rcases waits _ isLast rfl with ⟨others, leftover, flushed, _, joined⟩
  clear_value middle final
  exact ⟨others, leftover, flushed, joined (Bar.settle_ne_nil follows)⟩

end Session

end MidiScore
