import MidiScore.Proofs.Session.Reachable
import MidiScore.Session.InPlace

/-!
# Evaluation in place is evaluation

A workspace that is outside of bar bodies stands for its session, and an evaluation in
place turns it into one that stands for the session after the evaluation, whether it
fails or not: `Workspace.evaluate_eq`.  While a body is evaluated the workspace holds the
settings of its draft.  If the body fails they are put back; if it builds no bar, only the
scope is, and this is enough, since a body without events has declared no key signature.
-/

namespace MidiScore

/-- Declarations that act on a bar and its settings, and on nothing else. -/
def Declaration.isLocal : Declaration → Bool
  | .assign _ _ | .defineBar _ _ | .play _ => false
  | _ => true

/-- A body that builds no bar leaves the key signatures as they are. -/
theorem Draft.signatures_eq_of_finish_eq_none {keys : KeyMap} {scope : Scope}
    {signatures : Signatures} {body : List Declaration} {draft : Draft}
    (run : (Draft.start scope signatures).steps keys body = .ok draft)
    (empty : draft.finish = none) : draft.signatures = signatures := by
  have noEvents : draft.bar.events = [] := by
    rw [finish] at empty
    split at empty
    · rename_i silent
      exact List.isEmpty_iff.mp (Bool.and_eq_true_iff.mp silent).1
    · contradiction
  have preserved {draft next : Draft} {declaration : Declaration}
      (kept : draft.bar.events = [] → draft.signatures = signatures)
      (step : Step keys draft declaration next) :
      next.bar.events = [] → next.signatures = signatures := by
    cases step with
    | timeSignature | velocity | channel => exact kept
    | notes list events _ _ => exact fun empty => kept (List.append_eq_nil_iff.mp empty).1
    | tempo | program | control | start | stop | key | text => simp [push]
  exact steps_invariant preserved (fun _ => rfl) run noEvents

namespace Context

theorem defineBar_of_used {context : Context} {name : String} {bar : Bar}
    (body : List Declaration) (used : context.bar? name = some bar) :
    context.defineBar name body = .error (.duplicateBar name) := by
  rw [defineBar, used]
  rfl

theorem defineBar_of_fresh {context : Context} {name : String} (body : List Declaration)
    (fresh : context.bar? name = none) :
    context.defineBar name body =
      match (Draft.start context.scope context.signatures).steps context.keys body with
      | .error error => .error error
      | .ok draft =>
          match draft.finish with
          | none => .error (.emptyBar name)
          | some bar => .ok { context with
              bars := (name, bar) :: context.bars
              signatures := draft.signatures } := by
  rw [defineBar, fresh]
  cases (Draft.start context.scope context.signatures).steps context.keys body with
  | error error => rfl
  | ok draft =>
      simp only [bind, Except.bind]
      cases draft.finish <;> rfl

end Context

namespace Workspace

/-! ## What single pieces of work do -/

section

variable {α β : Type} (workspace : Workspace)

@[simp]
theorem bind_apply (first : Work α) (next : α → Work β) :
    (first >>= next) workspace =
      match first workspace with
      | .ok value changed => next value changed
      | .error error changed => .error error changed := by
  cases outcome : first workspace <;> simp [bind, EStateM.bind, outcome]

@[simp]
theorem pure_apply (value : α) : (pure value : Work α) workspace = .ok value workspace := rfl

@[simp]
theorem throw_apply (error : Error) :
    (throw error : Work α) workspace = .error error workspace := rfl

@[simp]
theorem modify_apply (change : Workspace → Workspace) :
    (modify change : Work Unit) workspace = .ok () (change workspace) := rfl

@[simp]
theorem context_apply : context workspace = .ok workspace.session.context workspace := rfl

@[simp]
theorem setContext_apply (change : Context → Context) :
    setContext change workspace =
      .ok () { workspace with session.context := change workspace.session.context } := rfl

@[simp]
theorem attempt_apply (work : Work α) :
    attempt work workspace =
      match work workspace with
      | .ok value changed => .ok (.ok value) changed
      | .error error changed => .ok (.error error) changed := rfl

theorem ofExcept_apply (outcome : Except Error α) :
    (ofExcept outcome : Work α) workspace =
      match outcome with
      | .ok value => .ok value workspace
      | .error error => .error error workspace := by
  cases outcome <;> rfl

end

/-! ## Bodies -/

/-- A session with the settings that a draft has reached. -/
def ofDraft (session : Session) (inBody : Bool) (draft : Draft) : Workspace where
  session :=
    { session with context :=
      { session.context with scope := draft.scope, signatures := draft.signatures } }
  inBody := inBody

/-- The bar of a draft. -/
def openBar (draft : Draft) : OpenBar := ⟨draft.bar, draft.advanced⟩

theorem keys_ofDraft (session : Session) (inBody : Bool) (draft : Draft) :
    (ofDraft session inBody draft).session.context.keys = session.context.keys := rfl

theorem draft_openBar (session : Session) (inBody : Bool) (draft : Draft) :
    (openBar draft).draft (ofDraft session inBody draft).session.context = draft := rfl

theorem addNotes_eq (session : Session) (inBody : Bool) (draft : Draft) (list : List Note) :
    addNotes list (openBar draft) (ofDraft session inBody draft) =
      match draft.addNotes session.context.keys list with
      | .ok next => .ok (openBar next) (ofDraft session inBody next)
      | .error error => .error error (ofDraft session inBody draft) := by
  simp only [addNotes, bind_apply, context_apply, ofExcept_apply, draft_openBar, keys_ofDraft]
  cases added : draft.addNotes session.context.keys list with
  | error error => rfl
  | ok next =>
      rcases Draft.addNotes_eq_ok_iff.mp added with ⟨events, _, _, rfl⟩
      rfl

/-- In place a declaration does to a bar and its settings what it does to a draft. -/
theorem eval_eq_step (session : Session) (draft : Draft) {inBody : Bool}
    {declaration : Declaration} (here : inBody = true ∨ declaration.isLocal = true) :
    eval declaration (openBar draft) (ofDraft session inBody draft) =
      match draft.step session.context.keys declaration with
      | .ok next => .ok (openBar next) (ofDraft session inBody next)
      | .error error => .error error (ofDraft session inBody draft) := by
  cases declaration with
  | assign | defineBar | play =>
      obtain rfl : inBody = true := by simpa [Declaration.isLocal] using here
      rw [eval]
      rfl
  | tempo bpm =>
      simp only [eval, require, Draft.step]
      cases Quantity.tempo.check bpm.toNat <;> rfl
  | timeSignature meter =>
      simp only [eval, Draft.step]
      cases meter.isValid <;> rfl
  | velocity value =>
      simp only [eval, require, Draft.step]
      cases Quantity.velocity.check value.toNat <;> rfl
  | channel number =>
      simp only [eval, require, Draft.step]
      cases Quantity.channel.check number.toNat <;> rfl
  | program number =>
      simp only [eval, require, Draft.step]
      cases Quantity.program.check number.toNat <;> rfl
  | control number value =>
      simp only [eval, require, Draft.step]
      cases Quantity.control.check number.toNat with
      | error error => rfl
      | ok => cases Quantity.controlValue.check value.toNat <;> rfl
  | start => rfl
  | stop => rfl
  | key name =>
      simp only [eval, Draft.step]
      cases Scale.ofName? name <;> rfl
  | text content => rfl
  | notes list =>
      rw [eval]
      exact addNotes_eq session inBody draft list

/-- In place a body does what it does to a draft.  Where it fails, it leaves the settings
of some draft behind. -/
theorem exists_evalBody_eq (session : Session) (draft : Draft) (body : List Declaration) :
    ∃ left, evalBody body (openBar draft) (ofDraft session true draft) =
      match draft.steps session.context.keys body with
      | .ok final => .ok (openBar final) (ofDraft session true final)
      | .error error => .error error (ofDraft session true left) := by
  induction body generalizing draft with
  | nil => exact ⟨draft, rfl⟩
  | cons declaration rest ih =>
      rw [evalBody, bind_apply, eval_eq_step session draft (.inl rfl), Draft.steps]
      cases draft.step session.context.keys declaration with
      | error error => exact ⟨draft, rfl⟩
      | ok next => exact ih next

/-! ## Single declarations outside of bodies -/

theorem defineBar_eq (session : Session) (name : String) (body : List Declaration) :
    defineBar name (evalBody body) ⟨session, false⟩ =
      match session.context.defineBar name body with
      | .ok next => .ok () ⟨{ session with context := next }, false⟩
      | .error error => .error error ⟨session, false⟩ := by
  cases known : session.context.bar? name with
  | some bar =>
      rw [Context.defineBar_of_used body known, defineBar, bind_apply, context_apply]
      simp only [known]
      rfl
  | none =>
      have entered : ∃ left,
          evalBody body (.start session.context.scope.meter) ⟨session, true⟩ = _ :=
        exists_evalBody_eq session
          (Draft.start session.context.scope session.context.signatures) body
      rcases entered with ⟨left, ran⟩
      rw [Context.defineBar_of_fresh body known]
      simp only [defineBar, known, bind_apply, context_apply, modify_apply, attempt_apply, ran,
        Option.isSome_none, Bool.false_eq_true, if_false]
      cases run : (Draft.start session.context.scope session.context.signatures).steps
          session.context.keys body with
      | error error => rfl
      | ok draft =>
          have same : (openBar draft).finish = draft.finish := rfl
          simp only [setContext_apply, same]
          cases finished : draft.finish with
          | none =>
              -- the key signatures are not put back here, and need not be
              have kept := Draft.signatures_eq_of_finish_eq_none run finished
              simp only [ofDraft, kept]
              rfl
          | some bar => rfl

theorem requireOutside_eq (session : Session) (declaration : Declaration) :
    requireOutside declaration ⟨session, false⟩ = .ok () ⟨session, false⟩ := rfl

theorem assign_eq (session : Session) (note : Char) (key : UInt8) :
    assign note key ⟨session, false⟩ =
      match session.context.assign note key with
      | .ok next => .ok () ⟨{ session with context := next }, false⟩
      | .error error => .error error ⟨session, false⟩ := by
  simp only [assign, require, Context.assign, bind_apply, ofExcept_apply, context_apply]
  cases Quantity.key.check key.toNat with
  | error error => rfl
  | ok =>
      simp only [bind, Except.bind]
      cases session.context.keys.get? session.context.scope.channel note <;> rfl

end Workspace

/-- A declaration that acts on a bar alone is evaluated in a draft of its own. -/
theorem Context.step_of_isLocal {context : Context} {declaration : Declaration}
    (isLocal : declaration.isLocal = true) :
    context.step declaration =
      match (Draft.start context.scope context.signatures).step context.keys declaration with
      | .ok draft => .ok
          ({ context with scope := draft.scope, signatures := draft.signatures }, draft.finish)
      | .error error => .error error := by
  cases declaration with
  | assign | defineBar | play => contradiction
  | _ =>
      simp only [step]
      cases (Draft.start context.scope context.signatures).step context.keys _ <;> rfl

namespace Workspace

/-- In place a declaration outside of bodies does what it does to a context, and its bar
joins the buffer. -/
theorem evaluateOne_eq (session : Session) (declaration : Declaration) :
    evaluateOne declaration ⟨session, false⟩ =
      match session.context.step declaration with
      | .ok (next, put) => .ok () ⟨⟨next, session.buffer ++ put.toList⟩, false⟩
      | .error error => .error error ⟨session, false⟩ := by
  rw [evaluateOne, bind_apply, context_apply]
  cases isLocal : declaration.isLocal with
  | true =>
      have begun : eval declaration (.start session.context.scope.meter) ⟨session, false⟩ = _ :=
        eval_eq_step session (Draft.start session.context.scope session.context.signatures)
          (.inr isLocal)
      simp only [bind_apply, begun]
      rw [Context.step_of_isLocal isLocal]
      cases (Draft.start session.context.scope session.context.signatures).step
          session.context.keys declaration with
      | error error => rfl
      | ok draft =>
          have same : (openBar draft).finish = draft.finish := rfl
          simp only [same]
          cases draft.finish with
          | none => simp [ofDraft]
          | some bar => rfl
  | false =>
      cases declaration with
      | assign note key =>
          simp only [eval, bind_apply, requireOutside_eq, assign_eq, Context.step]
          cases session.context.assign note key with
          | error error => rfl
          | ok next => simp [Except.map, OpenBar.start, OpenBar.finish]
      | defineBar name body =>
          simp only [eval, bind_apply, requireOutside_eq, defineBar_eq, Context.step]
          cases session.context.defineBar name body with
          | error error => rfl
          | ok next => simp [Except.map, OpenBar.start, OpenBar.finish]
      | play name =>
          simp only [eval, bind_apply, requireOutside_eq, play, context_apply, Context.step]
          cases session.context.bar? name <;> rfl
      | _ => contradiction

/-- In place declarations in a row do what they do to a context.  Where they fail, the
bars that they put out on the way are still in the buffer. -/
theorem exists_evaluateAll_eq (session : Session) (declarations : List Declaration) :
    ∃ onTheWay, evaluateAll declarations ⟨session, false⟩ =
      match session.context.run declarations with
      | (final, .ok bars) => .ok () ⟨⟨final, session.buffer ++ bars⟩, false⟩
      | (final, .error error) => .error error ⟨⟨final, session.buffer ++ onTheWay⟩, false⟩ := by
  induction declarations generalizing session with
  | nil => exact ⟨[], by simp [evaluateAll, Context.run]⟩
  | cons declaration rest ih =>
      rw [evaluateAll, bind_apply, evaluateOne_eq, Context.run]
      cases session.context.step declaration with
      | error error => exact ⟨[], by simp⟩
      | ok result =>
          rcases result with ⟨next, put⟩
          rcases ih ⟨next, session.buffer ++ put.toList⟩ with ⟨onTheWay, ran⟩
          refine ⟨put.toList ++ onTheWay, ?_⟩
          simp only [ran]
          rcases next.run rest with ⟨final, error | bars⟩ <;> simp [Except.map]

/-- An evaluation in place does what the evaluation of the session does. -/
theorem evaluate_eq (session : Session) (declarations : List Declaration) :
    evaluate declarations ⟨session, false⟩ =
      match session.evaluate declarations with
      | (final, none) => .ok () ⟨final, false⟩
      | (final, some error) => .error error ⟨final, false⟩ := by
  rcases exists_evaluateAll_eq session declarations with ⟨onTheWay, ran⟩
  have get_eq : (get : Work Workspace) ⟨session, false⟩ = .ok ⟨session, false⟩ ⟨session, false⟩ :=
    rfl
  simp only [evaluate, bind_apply, get_eq, attempt_apply, ran, Session.evaluate]
  rcases session.context.run declarations with ⟨final, error | bars⟩
  · simp
  · rfl

end Workspace

end MidiScore
