import Mathlib.Data.List.DropRight
import MidiScore.Proofs.Flush.Groups
import MidiScore.Proofs.Session.Failure
import MidiScore.Proofs.Session.Origin
import MidiScore.Proofs.Timeline.Words

/-!
# Bars that come out on their own

A bar that takes up time comes out of a flush on its own, behind the events that wait for
it, and so does the last bar of the buffer.  Whether a bar takes up time shows in the body
that built it: if one of its notes sounds it does, and if it only rests it does unless some
other declaration puts an event at its start.  This holds of every declaration with notes or
rests that is accepted, whatever is evaluated before and after it.
-/

namespace MidiScore

namespace Declaration

/-- Whether the declaration has notes or rests. -/
def takesTime : Declaration → Bool
  | .notes list => !list.isEmpty
  | _ => false

/-- Whether the declaration has notes that sound. -/
def sounds : Declaration → Bool
  | .notes list => list.any (!·.isRest)
  | _ => false

/-- Whether the declaration puts an event at the start of its bar. -/
def announces : Declaration → Bool
  | .tempo _ | .program _ | .control _ _ | .start | .stop | .key _ | .text _ => true
  | _ => false

/-- The body of the bar that a declaration puts out: that of its definition for a bar played
by name, and the declaration alone for any other. -/
def body? (definitions : List (String × List Declaration)) :
    Declaration → Option (List Declaration)
  | .play name => definitions.lookup name
  | declaration => some [declaration]

end Declaration

/-! ## Bodies -/

section

variable {keys : KeyMap} {scale : Scale} {scope : Scope} {position : Nat} {notes : List Note}
  {events : List Event}

theorem Note.Sequence.isEmpty_eq (derived : Sequence keys scale scope position notes events) :
    events.isEmpty = !notes.any (!·.isRest) := by
  induction derived with
  | nil position => rfl
  | rest silent _ ih => simpa [silent] using ih
  | note sounding _ _ _ _ =>
      rw [List.any_cons, sounding]
      exact List.isEmpty_eq_false_iff_exists_mem.mpr
        ⟨_, List.mem_append_left _ (mem_events.mpr (.inl rfl))⟩

theorem Note.Sequence.any_duration_pos
    (derived : Sequence keys scale scope position notes events) :
    events.any (0 < ·.duration) = notes.any (!·.isRest) := by
  induction derived with
  | nil position => rfl
  | rest silent _ ih => simpa [silent] using ih
  | @note _ note _ _ _ _ sounding _ _ _ _ =>
      rw [List.any_cons, sounding]
      exact List.any_eq_true.mpr ⟨_, List.mem_append_left _ (mem_events.mpr (.inl rfl)),
        decide_eq_true note.soundingLength_pos⟩

end

namespace Draft

variable {keys : KeyMap} {draft next : Draft} {declaration : Declaration}

theorem Step.isEmpty_eq (step : Step keys draft declaration next) :
    next.bar.events.isEmpty =
      (draft.bar.events.isEmpty && !declaration.announces && !declaration.sounds) := by
  cases step with
  | notes list events sequenced _ =>
      have empty := sequenced.isEmpty_eq
      change (draft.bar.events ++ events).isEmpty =
        (draft.bar.events.isEmpty && true && !list.any (!·.isRest))
      rw [← empty]
      cases draft.bar.events <;> rfl
  | _ => simp [Declaration.announces, Declaration.sounds, push]

theorem Step.any_duration_pos (step : Step keys draft declaration next) :
    next.bar.events.any (0 < ·.duration) =
      (draft.bar.events.any (0 < ·.duration) || declaration.sounds) := by
  cases step with
  | notes list events sequenced _ =>
      have lasting := sequenced.any_duration_pos
      rw [List.any_append, lasting]
      rfl
  | _ => simp [Declaration.sounds, push]

theorem isEmpty_and_any_duration_of_steps {body : List Declaration}
    (run : draft.steps keys body = .ok next) :
    next.bar.events.isEmpty =
        (draft.bar.events.isEmpty && !body.any (·.announces) && !body.any (·.sounds)) ∧
      next.bar.events.any (0 < ·.duration) =
        (draft.bar.events.any (0 < ·.duration) || body.any (·.sounds)) := by
  induction body generalizing draft with
  | nil =>
      cases run
      simp
  | cons declaration rest ih =>
      rcases steps_cons_eq_ok_iff.mp run with ⟨middle, step, run⟩
      rcases ih run with ⟨empty, lasting⟩
      rw [empty, lasting, step.isEmpty_eq, step.any_duration_pos, List.any_cons, List.any_cons]
      exact ⟨by grind, Bool.or_assoc _ _ _⟩

end Draft

/-- A bar takes no time exactly if some declaration of its body puts an event at its start
and no note of the body sounds. -/
theorem Context.Builds.isZeroDuration_eq {context : Context} {body : List Declaration}
    {bar : Bar} (builds : context.Builds body bar) :
    bar.isZeroDuration = (body.any (·.announces) && !body.any (·.sounds)) := by
  rcases builds with ⟨draft, run, finished⟩
  rcases Draft.isEmpty_and_any_duration_of_steps run with ⟨empty, lasting⟩
  have zeros : draft.bar.events.all (·.duration == 0) = !draft.bar.events.any (0 < ·.duration) := by
    rw [List.not_any_eq_all_not]
    congr 1
    funext event
    simp only [Nat.pos_iff_ne_zero, decide_not, Bool.not_not]
    rfl
  rw [Draft.bar_eq_of_finish finished, Bar.isZeroDuration, zeros, empty, lasting]
  cases body.any (·.announces) <;> cases body.any (·.sounds) <;> rfl

/-! ## Places in the buffer -/

namespace Bar

/-- The bar comes out of a flush on its own: behind the bars from the time before come its
meter and its events, these behind the events that wait for it, and then the bars from the
time after. -/
def ComesOutAlone (front : List Bar) (bar : Bar) (rest flushed : List Bar) : Prop :=
  flushed = settle [] (front.rdropWhile (·.isZeroDuration)) ++
    ofEvents bar.meter
      ((front.rtakeWhile (·.isZeroDuration)).flatMap (·.events) ++ bar.events) ::
    settle [] rest

/-- A flush up to a bar leaves the events of the bars in front of it that take no time. -/
theorem settle_append {front rest : List Bar} (nonempty : rest ≠ []) :
    settle [] (front ++ rest) =
      settle [] (front.rdropWhile (·.isZeroDuration)) ++
        settle ((front.rtakeWhile (·.isZeroDuration)).flatMap (·.events)) rest := by
  induction front using List.reverseRecOn generalizing rest with
  | nil => simp [settle]
  | append_singleton front last ih =>
      rw [List.append_assoc, List.singleton_append, ih (List.cons_ne_nil _ _)]
      cases zero : last.isZeroDuration with
      | true =>
          rcases List.exists_cons_of_ne_nil nonempty with ⟨next, others, rfl⟩
          rw [List.rdropWhile_concat_pos _ _ _ zero, List.rtakeWhile_concat_pos _ _ _ zero,
            settle_cons_cons_of_zero zero, List.flatMap_append, List.flatMap_singleton]
      | false =>
          have lasting : ¬ last.isZeroDuration = true := by simp [zero]
          rw [List.rdropWhile_concat_neg _ _ _ lasting, List.rtakeWhile_concat_neg _ _ _ lasting,
            settle_cons_of_lasting zero, ih (List.cons_ne_nil _ _), settle_cons_of_lasting zero]
          simp [settle]

/-- A bar comes out on its own exactly if it takes up time or is the last one. -/
theorem comesOutAlone_settle_iff {front : List Bar} {bar : Bar} {rest : List Bar} :
    bar.ComesOutAlone front rest (settle [] (front ++ bar :: rest)) ↔
      bar.isZeroDuration = false ∨ rest = [] := by
  rw [ComesOutAlone, settle_append (List.cons_ne_nil bar rest), List.append_cancel_left_eq]
  cases zero : bar.isZeroDuration with
  | false => simp [settle_cons_of_lasting zero]
  | true =>
      cases rest with
      | nil => simp [settle]
      | cons next others =>
          rw [settle_cons_cons_of_zero zero]
          refine iff_of_false (fun alone => ?_) (by simp)
          -- the bars that come out do not depend on what waits for the first one
          have meters := congrArg (List.map (·.meter)) alone
          rw [List.map_cons, map_meter_settle, map_meter_settle] at meters
          exact List.cons_ne_self _ _ meters.symm

/-- A timeline that takes in a bar that comes out on its own goes on by its capacity. -/
theorem ComesOutAlone.exists_add? {front : List Bar} {bar : Bar} {rest flushed : List Bar}
    (alone : bar.ComesOutAlone front rest flushed) {timeline after : Timeline}
    (added : timeline.add? flushed = some after) :
    ∃ before, timeline.add? (settle [] (front.rdropWhile (·.isZeroDuration))) = some before ∧
      after.clock.tick =
        before.clock.tick + bar.capacity + ((settle [] rest).map (·.capacity)).sum := by
  rw [alone, Timeline.add?_append, Option.bind_eq_some_iff] at added
  rcases added with ⟨before, addedBefore, added⟩
  refine ⟨before, addedBefore, ?_⟩
  rw [Timeline.tick_add? added, List.map_cons, List.sum_cons, Nat.add_assoc]
  rfl

end Bar

/-! ## Calls -/

/-- A row of declarations is accepted one after another. -/
theorem Context.exists_of_run_append {context final : Context}
    {before after : List Declaration} {declaration : Declaration} {bars : List Bar}
    (ran : context.run (before ++ declaration :: after) = (final, .ok bars)) :
    ∃ middle earlier next put later, context.run before = (middle, .ok earlier) ∧
      Step middle declaration next put ∧ bars = earlier ++ (put.toList ++ later) := by
  induction before generalizing context bars with
  | nil =>
      rcases run_cons_eq_ok_iff.mp ran with ⟨next, put, later, step, _, bars_eq⟩
      exact ⟨context, [], next, put, later, rfl, step_eq_ok_iff.mp step, bars_eq⟩
  | cons first rest ih =>
      rcases run_cons_eq_ok_iff.mp ran with ⟨next, put, later, step, ranLater, rfl⟩
      rcases ih ranLater with ⟨middle, earlier, reached, here, last, ranRest, stepHere, rfl⟩
      exact ⟨middle, put.toList ++ earlier, reached, here, last,
        run_cons_eq_ok_iff.mpr ⟨next, put, earlier, step, ranRest, rfl⟩, stepHere,
        (List.append_assoc _ _ _).symm⟩

/-- Notes or rests put out a bar. -/
theorem Context.Step.exists_bar_of_notes {context next : Context} {list : List Note}
    {put : Option Bar} (step : Step context (.notes list) next put) (nonempty : list ≠ []) :
    ∃ bar, put = some bar ∧ context.Builds [.notes list] bar := by
  cases step with
  | own _ draft _ run finished =>
      have advanced : draft.advanced = true := by
        rw [Draft.steps_singleton, Draft.step_eq_ok_iff] at run
        cases run with
        | notes _ _ _ _ =>
            change (false || !list.isEmpty) = true
            rw [List.isEmpty_eq_false_iff.mpr nonempty]
            rfl
      have kept : draft.finish = some draft.bar := by
        rw [Draft.finish, advanced, Bool.not_true, Bool.and_false]
        rfl
      exact ⟨draft.bar, finished.symm.trans kept, draft, run, kept⟩

/-- A declaration with a body that has notes or rests puts out the bar of this body. -/
theorem Context.Step.exists_bar_of_body {context next : Context}
    {definitions : List (String × List Declaration)} {declaration : Declaration}
    {body : List Declaration} {put : Option Bar} (accounts : context.Accounts definitions)
    (step : Step context declaration next put)
    (isBody : declaration.body? definitions = some body)
    (takesTime : body.any (·.takesTime) = true) :
    ∃ bar, put = some bar ∧ ∃ earlier : Context, earlier.Builds body bar := by
  cases declaration with
  | play name =>
      cases step with
      | play _ bar known =>
          rcases List.lookup_eq_some_iff.mp isBody with ⟨later, earlier, definitions_eq, _⟩
          have member : (name, body) ∈ definitions :=
            definitions_eq ▸ List.mem_append_right later List.mem_cons_self
          rcases accounts.built (name, body) member with ⟨built, found, builds⟩
          obtain rfl : built = bar := Option.some.inj (found.symm.trans known)
          exact ⟨built, rfl, builds⟩
      | own => contradiction
  | notes list =>
      obtain rfl : [Declaration.notes list] = body := Option.some.inj isBody
      have nonempty : list ≠ [] := by simpa [Declaration.takesTime] using takesTime
      rcases step.exists_bar_of_notes nonempty with ⟨bar, put_eq, builds⟩
      exact ⟨bar, put_eq, context, builds⟩
  | _ =>
      obtain rfl := Option.some.inj isBody
      exact absurd takesTime Bool.false_ne_true

namespace Session

/-- The session after further calls, each accepted or refused as a whole. -/
def evaluateEach (session : Session) (calls : List (List Declaration)) : Session :=
  calls.foldl (fun session declarations => (session.evaluate declarations).1) session

/-- Calls only add to the bars that wait. -/
theorem exists_buffer_evaluateEach (session : Session) (calls : List (List Declaration)) :
    ∃ more, (session.evaluateEach calls).buffer = session.buffer ++ more := by
  induction calls generalizing session with
  | nil => exact ⟨[], (List.append_nil _).symm⟩
  | cons declarations rest ih =>
      rcases ih (session.evaluate declarations).1 with ⟨later, buffer_eq⟩
      rw [evaluateEach, List.foldl_cons, ← evaluateEach, buffer_eq]
      rcases evaluated : session.evaluate declarations with ⟨next, _ | error⟩
      · rcases evaluate_eq_none_iff_run.mp evaluated with ⟨bars, _, next_eq⟩
        exact ⟨bars ++ later, by rw [next_eq, List.append_assoc]⟩
      · exact ⟨later, by rw [(evaluate_eq_error_iff_run.mp evaluated).2]⟩

/-- Every accepted declaration with notes or rests, or that plays a bar with some, puts out
a bar.  Whatever else is evaluated before the next flush, this bar comes out on its own, and
a timeline goes on by its capacity, exactly if a note of its body sounds, or no declaration
of the body puts an event at the start of the bar, or the bar is the last one. -/
theorem Reachable.comesOutAlone_iff {config : Config}
    {definitions : List (String × List Declaration)} {session next : Session}
    (reached : Reachable config definitions session) {before after body : List Declaration}
    {declaration : Declaration}
    (accepted : session.evaluate (before ++ declaration :: after) = (next, none))
    (isBody : declaration.body? (session.context.definitions before ++ definitions) = some body)
    (takesTime : body.any (·.takesTime) = true) (calls : List (List Declaration)) :
    let middle := (session.evaluate before).1
    let final := next.evaluateEach calls
    ∃ bar rest, (∃ following, middle.context.step declaration = .ok (following, some bar)) ∧
      (∃ earlier : Context, earlier.Builds body bar) ∧
      final.buffer = middle.buffer ++ bar :: rest ∧
      (bar.ComesOutAlone middle.buffer rest final.flush.1 ↔
        body.any (·.sounds) = true ∨ body.any (·.announces) = false ∨ rest = []) ∧
      (bar.ComesOutAlone middle.buffer rest final.flush.1 → ∀ timeline after : Timeline,
        timeline.add? final.flush.1 = some after →
          ∃ before, timeline.add?
              (Bar.settle [] (middle.buffer.rdropWhile (·.isZeroDuration))) = some before ∧
            after.clock.tick = before.clock.tick + bar.capacity +
              ((Bar.settle [] rest).map (·.capacity)).sum) := by
  intro middle final
  rcases evaluate_eq_none_iff_run.mp accepted with ⟨bars, ran, next_eq⟩
  rcases Context.exists_of_run_append ran with
    ⟨context, earlier, following, put, later, ranBefore, step, rfl⟩
  have middle_eq : middle = ⟨context, session.buffer ++ earlier⟩ :=
    congrArg Prod.fst (evaluate_eq_none_iff_run.mpr ⟨earlier, ranBefore, rfl⟩)
  have accounts : middle.context.Accounts (session.context.definitions before ++ definitions) :=
    (reached.evaluate before).accounts
  rw [middle_eq] at accounts ⊢
  rcases step.exists_bar_of_body accounts isBody takesTime with ⟨bar, rfl, builds⟩
  rcases next.exists_buffer_evaluateEach calls with ⟨more, final_eq⟩
  have buffer_eq : final.buffer = session.buffer ++ earlier ++ bar :: (later ++ more) := by
    simp only [final, final_eq, next_eq, Option.toList_some, List.append_assoc,
      List.cons_append, List.nil_append]
  refine ⟨bar, later ++ more, ⟨following, Context.step_eq_ok_iff.mpr step⟩, builds, buffer_eq, ?_,
    fun alone _ _ added => alone.exists_add? added⟩
  rcases builds with ⟨_, builds⟩
  rw [Session.flush, buffer_eq, Bar.comesOutAlone_settle_iff, builds.isZeroDuration_eq]
  cases body.any (·.sounds) <;> cases body.any (·.announces) <;> simp

/-- A bar of rests between a tempo and a stop, a refused call and one more event. -/
theorem comesOutAlone_iff_pause :
    let before : List Declaration := [.defineBar "pause" [.notes [.plain '-']], .tempo 60]
    let middle := ((ofConfig .standard).evaluate before).1
    let next := ((ofConfig .standard).evaluate (before ++ [.play "pause", .stop])).1
    let final := next.evaluateEach [[.play "other"], [.program 1]]
    ∃ bar rest, final.buffer = middle.buffer ++ bar :: rest ∧ rest ≠ [] ∧
      bar.ComesOutAlone middle.buffer rest final.flush.1 := by
  intro before middle next final
  have accepted : (ofConfig .standard).evaluate (before ++ [.play "pause", .stop]) =
      (next, none) := Prod.ext rfl (by decide +kernel)
  have isBody : (Declaration.play "pause").body?
      ((ofConfig .standard).context.definitions before ++ []) = some [.notes [.plain '-']] := rfl
  rcases Reachable.comesOutAlone_iff .start accepted isBody rfl [[.play "other"], [.program 1]]
    with ⟨bar, rest, _, _, buffer_eq, alone_iff, _⟩
  refine ⟨bar, rest, buffer_eq, ?_, alone_iff.mpr (.inr (.inl rfl))⟩
  rintro rfl
  have lengths : final.buffer.length ≠ middle.buffer.length + 1 := by decide +kernel
  exact lengths ((congrArg List.length buffer_eq).trans List.length_append)

/-- A bar of rests that sets a tempo is lost in front of the next bar. -/
theorem comesOutAlone_fails_tempo_pause :
    let body : List Declaration := [.tempo 60, .notes [.plain '-']]
    let score : List Declaration :=
      [.assign 'c' 60, .defineBar "pause" body, .play "pause", .notes [.plain 'c']]
    let session := ((ofConfig .standard).evaluate score).1
    ((ofConfig .standard).evaluate score).2 = none ∧
      body.any (·.takesTime) = true ∧
      session.flush.1.map (·.meter) = [⟨4, 4⟩] ∧
      (∃ timeline, (Timeline.start 120).add? session.flush.1 = some timeline ∧
        timeline.clock.tick = 3840) ∧
      ∃ pause rest, session.buffer = pause :: rest ∧
        ¬ pause.ComesOutAlone [] rest session.flush.1 := by
  intro body score session
  let pause : Bar := ⟨.common, [⟨.tempo 60, 0, 0, 0⟩]⟩
  let note : Bar := ⟨.common,
    [⟨.voice 0 (.noteOn 60 100), 0, 960, 0⟩, ⟨.voice 0 (.noteOff 60), 960, 0, 0⟩]⟩
  have buffered : session.buffer = [pause, note] := by decide +kernel
  have flushed : session.flush.1 = [⟨.common, pause.events ++ note.events⟩] := by
    have sorted : (pause.events ++ note.events).mergeSort Event.precedes =
        pause.events ++ note.events := List.mergeSort_of_pairwise (by decide)
    rw [flush, buffered]
    exact congrArg (fun events => [(⟨.common, events⟩ : Bar)]) sorted
  have lost : ¬ pause.ComesOutAlone [] [note] (Bar.settle [] ([] ++ [pause, note])) := by
    rw [Bar.comesOutAlone_settle_iff]
    decide
  refine ⟨by decide +kernel, rfl, by rw [flushed]; rfl, ?_, pause, [note], buffered, ?_⟩
  · have taken : ((Timeline.start 120).add?
        [⟨.common, pause.events ++ note.events⟩]).isSome = true := by decide +kernel
    rcases Option.isSome_iff_exists.mp taken with ⟨timeline, added⟩
    rw [flushed]
    exact ⟨timeline, added, (Timeline.tick_add? added).trans (by decide)⟩
  · rwa [flush, buffered]

end Session

end MidiScore
