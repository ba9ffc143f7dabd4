import MidiScore.Proofs.Session.InPlace

/-!
# Evaluations that fail

An evaluation fails exactly where a declaration is refused after those before it were
accepted.  It keeps what these have set and drops the bars of the whole call:
`Session.evaluate_eq_error_iff`.  An evaluation in place ends in the same state, so
whatever the refused declaration had changed by then is put back.
-/

namespace MidiScore

namespace Context

variable {context final : Context} {declaration : Declaration} {rest : List Declaration}

theorem run_cons_eq_ok_iff {bars : List Bar} :
    context.run (declaration :: rest) = (final, .ok bars) ↔
      ∃ next put later, context.step declaration = .ok (next, put) ∧
        next.run rest = (final, .ok later) ∧ bars = put.toList ++ later := by
  rw [run]
  constructor
  · intro ran
    rcases step : context.step declaration with error | ⟨next, put⟩
    · simp [step] at ran
    · rcases ranLater : next.run rest with ⟨last, error | later⟩
      · simp [step, ranLater, Except.map] at ran
      · simp only [step, ranLater, Except.map, Prod.mk.injEq, Except.ok.injEq] at ran
        rcases ran with ⟨rfl, rfl⟩
        exact ⟨next, put, later, rfl, ranLater, rfl⟩
  · rintro ⟨next, put, later, step, ranLater, rfl⟩
    simp only [step, ranLater, Except.map]

theorem run_cons_eq_error_iff {error : Error} :
    context.run (declaration :: rest) = (final, .error error) ↔
      (context.step declaration = .error error ∧ final = context) ∨
        ∃ next put, context.step declaration = .ok (next, put) ∧
          next.run rest = (final, .error error) := by
  rw [run]
  constructor
  · intro failed
    rcases step : context.step declaration with refused | ⟨next, put⟩
    · simp only [step, Prod.mk.injEq, Except.error.injEq] at failed
      rcases failed with ⟨rfl, rfl⟩
      exact .inl ⟨rfl, rfl⟩
    · rcases ranLater : next.run rest with ⟨last, refused | later⟩
      · simp only [step, ranLater, Except.map, Prod.mk.injEq, Except.error.injEq] at failed
        rcases failed with ⟨rfl, rfl⟩
        exact .inr ⟨next, put, rfl, ranLater⟩
      · simp [step, ranLater, Except.map] at failed
  · rintro (⟨refused, rfl⟩ | ⟨next, put, step, failed⟩)
    · simp only [refused]
    · simp only [step, failed, Except.map]

/-- Once the first declarations are accepted, the others do what they do alone, behind the
bars of the first. -/
theorem run_append_of_ok {middle : Context} {front : List Declaration} {bars : List Bar}
    (ran : context.run front = (middle, .ok bars)) (rest : List Declaration) :
    context.run (front ++ rest) =
      ((middle.run rest).1, (middle.run rest).2.map (bars ++ ·)) := by
  induction front generalizing context bars with
  | nil =>
      cases ran
      rcases outcome : middle.run rest with ⟨final, error | more⟩ <;> simp [outcome, Except.map]
  | cons declaration others ih =>
      rcases run_cons_eq_ok_iff.mp ran with ⟨next, put, later, step, ranLater, rfl⟩
      rw [List.cons_append, run, step]
      simp only [ih ranLater]
      cases (middle.run rest).2 <;> simp [Except.map]

/-- Declarations in a row fail where the first of them is refused. -/
theorem run_eq_error_iff {declarations : List Declaration} {error : Error} :
    context.run declarations = (final, .error error) ↔
      ∃ index declaration bars, declarations[index]? = some declaration ∧
        context.run (declarations.take index) = (final, .ok bars) ∧
        final.step declaration = .error error := by
  induction declarations generalizing context with
  | nil => simp [run]
  | cons first rest ih =>
      rw [run_cons_eq_error_iff]
      constructor
      · rintro (⟨refused, rfl⟩ | ⟨next, put, step, failed⟩)
        · exact ⟨0, first, [], rfl, rfl, refused⟩
        · rcases ih.mp failed with ⟨index, declaration, bars, found, ran, refused⟩
          refine ⟨index + 1, declaration, put.toList ++ bars, found, ?_, refused⟩
          exact run_cons_eq_ok_iff.mpr ⟨next, put, bars, step, ran, rfl⟩
      · rintro ⟨index, declaration, bars, found, ran, refused⟩
        cases index with
        | zero =>
            cases found
            cases ran
            exact .inl ⟨refused, rfl⟩
        | succ index =>
            rcases run_cons_eq_ok_iff.mp ran with ⟨next, put, later, step, ranLater, _⟩
            exact .inr ⟨next, put, step,
              ih.mpr ⟨index, declaration, later, found, ranLater, refused⟩⟩

end Context

namespace Session

theorem evaluate_eq_error_iff_run {session final : Session} {declarations : List Declaration}
    {error : Error} :
    session.evaluate declarations = (final, some error) ↔
      session.context.run declarations = (final.context, .error error) ∧
        final.buffer = session.buffer := by
  rw [evaluate]
  rcases final with ⟨context, buffer⟩
  rcases session.context.run declarations with ⟨reached, refused | bars⟩
  · simp only [Prod.mk.injEq, Session.mk.injEq, Option.some.injEq, Except.error.injEq]
    constructor
    · rintro ⟨⟨rfl, rfl⟩, rfl⟩
      exact ⟨⟨rfl, rfl⟩, rfl⟩
    · rintro ⟨⟨rfl, rfl⟩, rfl⟩
      exact ⟨⟨rfl, rfl⟩, rfl⟩
  · simp

theorem evaluate_eq_none_iff_run {session final : Session} {declarations : List Declaration} :
    session.evaluate declarations = (final, none) ↔
      ∃ bars, session.context.run declarations = (final.context, .ok bars) ∧
        final.buffer = session.buffer ++ bars := by
  rw [evaluate]
  rcases final with ⟨context, buffer⟩
  rcases session.context.run declarations with ⟨reached, refused | bars⟩
  · simp
  · simp only [Prod.mk.injEq, Session.mk.injEq, and_true, Except.ok.injEq]
    constructor
    · rintro ⟨rfl, rfl⟩
      exact ⟨bars, ⟨rfl, rfl⟩, rfl⟩
    · rintro ⟨others, ⟨rfl, rfl⟩, rfl⟩
      exact ⟨rfl, rfl⟩

/-- A single declaration that is refused changes nothing. -/
theorem evaluate_singleton_eq_error_iff {session : Session} {declaration : Declaration}
    {error : Error} :
    session.evaluate [declaration] = (session, some error) ↔
      session.context.step declaration = .error error := by
  rw [evaluate_eq_error_iff_run, Context.run]
  rcases session.context.step declaration with refused | ⟨next, put⟩
  · simp
  · simp [Context.run, Except.map]

/-- An evaluation fails exactly where a declaration is refused after those before it were
accepted, keeps what these have set and drops all their bars. -/
theorem evaluate_eq_error_iff {session final : Session} {declarations : List Declaration}
    {error : Error} :
    session.evaluate declarations = (final, some error) ↔
      ∃ index declaration before, declarations[index]? = some declaration ∧
        session.evaluate (declarations.take index) = (before, none) ∧
        before.evaluate [declaration] = (before, some error) ∧
        final = ⟨before.context, session.buffer⟩ := by
  rw [evaluate_eq_error_iff_run, Context.run_eq_error_iff]
  constructor
  · rintro ⟨⟨index, declaration, bars, found, ran, refused⟩, dropped⟩
    refine ⟨index, declaration, ⟨final.context, session.buffer ++ bars⟩, found, ?_, ?_, ?_⟩
    · exact evaluate_eq_none_iff_run.mpr ⟨bars, ran, rfl⟩
    · exact evaluate_singleton_eq_error_iff.mpr refused
    · rw [← dropped]
  · rintro ⟨index, declaration, before, found, accepted, refused, rfl⟩
    rcases evaluate_eq_none_iff_run.mp accepted with ⟨bars, ran, _⟩
    have step := evaluate_singleton_eq_error_iff.mp refused
    exact ⟨⟨index, declaration, bars, found, ran, step⟩, rfl⟩

end Session

namespace Workspace

theorem evaluate_eq_ok_iff {session final : Session} {declarations : List Declaration} :
    evaluate declarations ⟨session, false⟩ = .ok () ⟨final, false⟩ ↔
      session.evaluate declarations = (final, none) := by
  rw [evaluate_eq]
  rcases session.evaluate declarations with ⟨reached, _ | error⟩ <;> simp

theorem evaluate_eq_error_iff {session : Session} {final : Workspace}
    {declarations : List Declaration} {error : Error} :
    evaluate declarations ⟨session, false⟩ = .error error final ↔
      session.evaluate declarations = (final.session, some error) ∧ final.inBody = false := by
  rw [evaluate_eq]
  rcases final with ⟨last, inBody⟩
  rcases session.evaluate declarations with ⟨reached, _ | refused⟩
  · simp
  · simp only [EStateM.Result.error.injEq, mk.injEq, Prod.mk.injEq, Option.some.injEq]
    constructor
    · rintro ⟨rfl, rfl, rfl⟩
      exact ⟨⟨rfl, rfl⟩, rfl⟩
    · rintro ⟨⟨rfl, rfl⟩, rfl⟩
      exact ⟨rfl, rfl, rfl⟩

/-- An evaluation in place fails at the first declaration that is refused, with its error.
This declaration changes nothing, a bar body that was entered is left, and the buffer is
the one before the call, so that the next flush returns what it would have returned. -/
theorem evaluate_fails_at_first_refused {session : Session} {final : Workspace}
    {declarations : List Declaration} {error : Error}
    (failed : evaluate declarations ⟨session, false⟩ = .error error final) :
    ∃ index declaration before, declarations[index]? = some declaration ∧
      evaluate (declarations.take index) ⟨session, false⟩ = .ok () ⟨before, false⟩ ∧
      evaluate [declaration] ⟨before, false⟩ = .error error ⟨before, false⟩ ∧
      final = ⟨⟨before.context, session.buffer⟩, false⟩ ∧
      final.session.flush.1 = session.flush.1 ∧
      session.evaluate declarations = (final.session, some error) := by
  rcases evaluate_eq_error_iff.mp failed with ⟨evaluated, outside⟩
  rcases Session.evaluate_eq_error_iff.mp evaluated with
    ⟨index, declaration, before, found, accepted, refused, kept⟩
  obtain rfl : final = ⟨⟨before.context, session.buffer⟩, false⟩ := by rw [← kept, ← outside]
  exact ⟨index, declaration, before, found, evaluate_eq_ok_iff.mpr accepted,
    evaluate_eq_error_iff.mpr ⟨refused, rfl⟩, rfl, rfl, evaluated⟩

/-- A body that fails on its last note leaves nothing of itself behind, neither its channel
nor its key signature.  The bar of the notes before it goes, that of an earlier call stays. -/
theorem evaluate_fails_at_first_refused_in_body :
    let session := ((Session.ofConfig .standard).evaluate
      [.assign 'c' 60, .notes [.plain 'c']]).1
    let accepted : List Declaration := [.velocity 50, .notes [.plain 'c']]
    let body : List Declaration := [.notes [.plain 'c'], .key "Eb", .channel 3, .notes [.plain 'c']]
    let before := (session.evaluate accepted).1
    let final : Workspace := ⟨⟨before.context, session.buffer⟩, false⟩
    evaluate (accepted ++ [.defineBar "b" body, .channel 9]) ⟨session, false⟩ =
        .error (.undefinedNote 'c' 3) final ∧
      final.session.context.scope = ⟨0, 50, .common⟩ ∧
      final.session.context.signatures = [] ∧
      (before.buffer.length, final.session.buffer.length) = (2, 1) ∧
      final.session.flush.1 = session.flush.1 := by
  intro session accepted body before final
  have failed : evaluate (accepted ++ [.defineBar "b" body, .channel 9]) ⟨session, false⟩ =
      .error (.undefinedNote 'c' 3) final :=
    evaluate_eq_error_iff.mpr ⟨by decide +kernel, rfl⟩
  rcases evaluate_fails_at_first_refused failed with ⟨_, _, _, _, _, _, _, flushed, _⟩
  exact ⟨failed, by decide +kernel, by decide +kernel, by decide +kernel, flushed⟩

end Workspace

end MidiScore
