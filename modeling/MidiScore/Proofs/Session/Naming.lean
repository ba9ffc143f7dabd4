import MidiScore.Proofs.Session.Failure

/-!
# A name for what a declaration does

A declaration that acts on a bar alone can stand outside of bar bodies, where its bar is put out
and its settings stay, or in the body of a named bar, whose settings end with it.  Both come to the
same when the bar is played right away, `Session.naming_is_transparent`: a declaration that puts
out a bar changes no setting but key signatures, and these outlive the body too.
-/

namespace MidiScore

namespace Session

/-- An evaluation takes a session to another one and ends without an error or with one.  In place
it does the same, and is outside of bar bodies afterwards. -/
def Evaluates (session : Session) (declarations : List Declaration) (final : Session)
    (outcome : Option Error) : Prop :=
  session.evaluate declarations = (final, outcome) ∧
    Workspace.evaluate declarations ⟨session, false⟩ =
      match outcome with
      | none => .ok () ⟨final, false⟩
      | some error => .error error ⟨final, false⟩

theorem evaluates_iff {session final : Session} {declarations : List Declaration}
    {outcome : Option Error} :
    session.Evaluates declarations final outcome ↔
      session.evaluate declarations = (final, outcome) := by
  refine ⟨And.left, fun evaluated => ⟨evaluated, ?_⟩⟩
  rw [Workspace.evaluate_eq, evaluated]
  cases outcome <;> rfl

end Session

/-- A declaration that starts a bar and does not leave it empty changes no setting. -/
theorem Draft.Step.scope_eq_of_finish {keys : KeyMap} {scope : Scope} {signatures : Signatures}
    {declaration : Declaration} {draft : Draft} {bar : Bar}
    (step : Step keys (Draft.start scope signatures) declaration draft)
    (finished : draft.finish = some bar) : draft.scope = scope := by
  cases step with
  | timeSignature | velocity | channel => contradiction
  | _ => rfl

namespace Context

variable {context : Context} {name : String} {declaration : Declaration}

theorem step_defineBar (context : Context) (name : String) (body : List Declaration) :
    context.step (.defineBar name body) = (context.defineBar name body).map (·, none) :=
  rfl

theorem step_play_of_known {bar : Bar} (known : context.bar? name = some bar) :
    context.step (.play name) = .ok (context, some bar) := by
  rw [step]
  simp only [known]

/-- What a single declaration makes of a body: its error, no bar, or the bar under its name. -/
theorem step_defineBar_singleton (fresh : context.bar? name = none)
    (isLocal : declaration.isLocal = true) :
    context.step (.defineBar name [declaration]) =
      match context.step declaration with
      | .error error => .error error
      | .ok (_, none) => .error (.emptyBar name)
      | .ok (next, some bar) => .ok ({ next with bars := (name, bar) :: context.bars }, none) := by
  rw [step_defineBar, defineBar_of_fresh _ fresh, Draft.steps_singleton, step_of_isLocal isLocal]
  cases ran : (Draft.start context.scope context.signatures).step context.keys declaration with
  | error error => rfl
  | ok draft =>
      cases finished : draft.finish with
      | none => simp only [finished, Except.map]
      | some bar =>
          have kept := (Draft.step_eq_ok_iff.mp ran).scope_eq_of_finish finished
          simp only [finished, kept, Except.map]

end Context

namespace Session

variable {session : Session}

theorem evaluates_singleton_of_error {declaration : Declaration} {error : Error}
    (refused : session.context.step declaration = .error error) :
    session.Evaluates [declaration] session (some error) :=
  evaluates_iff.mpr (evaluate_singleton_eq_error_iff.mpr refused)

theorem evaluates_singleton_of_ok {declaration : Declaration} {next : Context} {put : Option Bar}
    (accepted : session.context.step declaration = .ok (next, put)) :
    session.Evaluates [declaration] ⟨next, session.buffer ++ put.toList⟩ none := by
  refine evaluates_iff.mpr (evaluate_eq_none_iff_run.mpr ⟨put.toList, ?_, rfl⟩)
  exact Context.run_cons_eq_ok_iff.mpr ⟨next, put, [], accepted, rfl, (List.append_nil _).symm⟩

/-- A declaration other than an assignment, a definition or a play, evaluated on its own or named
and played under a fresh name.

It may be refused: then the definition is refused with the same error, and both change nothing.  It
may put out no bar: then the definition is refused as empty, and changes nothing.  Or it puts out a
bar: then the definition is accepted and the play puts out the same bar, with everything as the
declaration itself leaves it but for the new name. -/
theorem naming_is_transparent {name : String} {declaration : Declaration}
    (fresh : session.context.bar? name = none) (isLocal : declaration.isLocal = true) :
    (∃ error, session.Evaluates [declaration] session (some error) ∧
      session.Evaluates [.defineBar name [declaration]] session (some error)) ∨
    (∃ after, session.Evaluates [declaration] after none ∧ after.buffer = session.buffer ∧
      session.Evaluates [.defineBar name [declaration]] session (some (.emptyBar name))) ∨
    ∃ after bar, session.Evaluates [declaration] after none ∧
      after.buffer = session.buffer ++ [bar] ∧
      session.Evaluates [.defineBar name [declaration], .play name]
        { after with context.bars := (name, bar) :: session.context.bars } none := by
  have named := Context.step_defineBar_singleton fresh isLocal
  rcases step : session.context.step declaration with error | ⟨next, _ | bar⟩
  · rw [step] at named
    exact .inl ⟨error, evaluates_singleton_of_error step, evaluates_singleton_of_error named⟩
  · rw [step] at named
    exact .inr (.inl ⟨_, evaluates_singleton_of_ok step, List.append_nil _,
      evaluates_singleton_of_error named⟩)
  · rw [step] at named
    refine .inr (.inr ⟨_, bar, evaluates_singleton_of_ok step, rfl, ?_⟩)
    refine evaluates_iff.mpr (evaluate_eq_none_iff_run.mpr ⟨[bar], ?_, rfl⟩)
    have known : Context.bar? { next with bars := (name, bar) :: session.context.bars } name =
        some bar := by simp [Context.bar?]
    exact Context.run_cons_eq_ok_iff.mpr ⟨_, none, [bar], named,
      Context.run_cons_eq_ok_iff.mpr ⟨_, some bar, [], Context.step_play_of_known known, rfl, rfl⟩,
      rfl⟩

/-- A key signature under a name next to another one: whether it is declared for channel 3 or
played there, it is in force afterwards. -/
theorem naming_is_transparent_key_signature :
    let session := ((Session.ofConfig .standard).evaluate
      [.channel 3, .defineBar "halt" [.stop], .notes [.plain '-']]).1
    let after := (session.evaluate [.key "Eb"]).1
    (after.context.scope, after.context.signatures) = (⟨3, 100, .common⟩, [(3, ⟨-3, false⟩)]) ∧
      ∃ bar, after.buffer = session.buffer ++ [bar] ∧
        session.Evaluates [.defineBar "flats" [.key "Eb"], .play "flats"]
          { after with context.bars := ("flats", bar) :: session.context.bars } none := by
  intro session after
  have accepted : session.evaluate [.key "Eb"] = (after, none) :=
    Prod.ext rfl (by decide +kernel)
  have lengths : after.buffer.length ≠ session.buffer.length := by decide +kernel
  have fresh : session.context.bar? "flats" = none := by decide +kernel
  refine ⟨by decide +kernel, ?_⟩
  rcases @naming_is_transparent session "flats" (.key "Eb") fresh rfl with
    ⟨error, refused, _⟩ | ⟨final, evaluated, same, _⟩ | ⟨final, bar, evaluated, put, named⟩
  · have clash := accepted.symm.trans refused.1
    simp at clash
  · obtain rfl : after = final := congrArg Prod.fst (accepted.symm.trans evaluated.1)
    exact absurd (congrArg List.length same) lengths
  · obtain rfl : after = final := congrArg Prod.fst (accepted.symm.trans evaluated.1)
    exact ⟨bar, put, named⟩

end Session

end MidiScore
