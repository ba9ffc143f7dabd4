import MidiScore.Proofs.Session.Failure

/-!
# What a bar body leaves behind

A definition of a bar is evaluated in place, by the same rules as everything else, on the
settings of the session.  Nevertheless nothing of its body is left behind but the bar under
its name and the key signatures, `Workspace.defineBar_leaves`; and nothing at all if it is
refused.
-/

namespace MidiScore

namespace Declaration

/-- The scale that a body declares last for a channel, from where `selected` is the channel
that declarations act on. -/
def lastKey? (channel selected : UInt8) : List Declaration → Option Scale
  | [] => none
  | .channel number :: rest => lastKey? channel number rest
  | .key name :: rest =>
      (lastKey? channel selected rest).or
        (if selected = channel then Scale.ofName? name else none)
  | _ :: rest => lastKey? channel selected rest

end Declaration

namespace Draft

variable {keys : KeyMap} {draft final : Draft} {body : List Declaration}

/-- A draft accepts only declarations that act on a bar alone. -/
theorem Step.isLocal {next : Draft} {declaration : Declaration}
    (step : Step keys draft declaration next) : declaration.isLocal = true := by
  cases step <;> rfl

theorem isLocal_of_steps (run : draft.steps keys body = .ok final) :
    ∀ declaration ∈ body, declaration.isLocal = true := by
  induction body generalizing draft with
  | nil => simp
  | cons declaration rest ih =>
      rcases steps_cons_eq_ok_iff.mp run with ⟨next, step, run⟩
      exact List.forall_mem_cons.mpr ⟨step.isLocal, ih run⟩

/-- A body overrides the scale of each channel by the one it declares last for it. -/
theorem lookup_signatures_of_steps (run : draft.steps keys body = .ok final) (channel : UInt8) :
    final.signatures.lookup channel =
      (Declaration.lastKey? channel draft.scope.channel body).or
        (draft.signatures.lookup channel) := by
  induction body generalizing draft with
  | nil =>
      cases run
      rfl
  | cons declaration rest ih =>
      rcases steps_cons_eq_ok_iff.mp run with ⟨next, step, run⟩
      rw [ih run]
      cases step with
      | key name scale known =>
          rw [Declaration.lastKey?, Option.or_assoc, known]
          congr 1
          by_cases same : channel = draft.scope.channel
          · simp [same]
          · simp [List.lookup_cons, beq_false_of_ne same, Ne.symm same]
      | _ => rfl

end Draft

namespace Workspace

/-- A definition of a bar leaves the channel, the velocity, the meter, the key map and the
buffer as they were, and is outside of all bodies again.  If it is refused it changes nothing.
If not, its body had no assignment, definition or play in it, just the name is added to the
named bars, and each channel has the scale that the body declared last for it, or else the
one from before. -/
theorem defineBar_leaves (session : Session) (name : String) (body : List Declaration) :
    match evaluateOne (.defineBar name body) ⟨session, false⟩ with
    | .error error final =>
        final = ⟨session, false⟩ ∧
          session.evaluate [.defineBar name body] = (session, some error)
    | .ok _ final =>
        final.inBody = false ∧
        final.session.buffer = session.buffer ∧
        final.session.context.scope = session.context.scope ∧
        final.session.context.keys = session.context.keys ∧
        (∃ bar, session.context.Builds body bar ∧ session.context.bar? name = none ∧
          ∀ other, final.session.context.bar? other =
            if other = name then some bar else session.context.bar? other) ∧
        (∀ channel, final.session.context.signatures.lookup channel =
          (Declaration.lastKey? channel session.context.scope.channel body).or
            (session.context.signatures.lookup channel)) ∧
        (∀ declaration ∈ body, declaration.isLocal = true) ∧
        session.evaluate [.defineBar name body] = (final.session, none) := by
  rw [evaluateOne_eq]
  rcases step : session.context.step (.defineBar name body) with error | ⟨next, put⟩
  · exact ⟨rfl, Session.evaluate_singleton_eq_error_iff.mpr step⟩
  · cases Context.step_eq_ok_iff.mp step with
    | own _ _ _ run _ => contradiction
    | defineBar _ _ draft bar fresh run finished =>
        refine ⟨rfl, by simp, rfl, rfl, ⟨bar, ⟨draft, run, finished⟩, fresh, ?_⟩, ?_,
          Draft.isLocal_of_steps run, ?_⟩
        · intro other
          exact Context.bar?_define
        · exact Draft.lookup_signatures_of_steps run
        · simp [Session.evaluate, Context.run, step, Except.map]

end Workspace

end MidiScore
