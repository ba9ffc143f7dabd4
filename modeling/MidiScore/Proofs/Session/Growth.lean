import Mathlib.Logic.Relation
import MidiScore.Proofs.KeyMap
import MidiScore.Proofs.Note.Resolution
import MidiScore.Proofs.Session.Failure
import MidiScore.Proofs.Session.Origin

/-!
# The tables of a session only grow

A key stays bound to its name on its channel, and a bar to its own name, whatever happens to a
session afterwards.  `Session.Moment.Next` lists what can happen, in the middle of a call as
well: a call begins, a declaration is accepted, one is refused and ends the call, or the bars are
taken.  Each of these extends the tables, and so does everything that comes later.

Bindings are refused exactly where they would replace one that is there.
-/

namespace MidiScore

namespace Error

/-- The error is about what the tables of a session hold, or about a bar that cannot be put
into them. -/
def isOfTables : Error → Bool
  | .duplicateAssignment _ _ _ | .duplicateBar _ | .unknownBar _ | .emptyBar _ => true
  | _ => false

end Error

namespace Note

theorem Unresolved.isOfTables {keys : KeyMap} {scale : Scale} {channel : UInt8} {note : Note}
    {error : Error} (unresolved : note.Unresolved keys scale channel error) :
    error.isOfTables = false := by
  cases unresolved <;> rfl

end Note

namespace Draft

variable {keys : KeyMap} {draft : Draft} {error : Error}

theorem isOfTables_of_addNotes {notes : List Note}
    (refused : draft.addNotes keys notes = .error error) : error.isOfTables = false := by
  rw [addNotes] at refused
  rcases Note.allResolve_or_first keys (draft.signatures.scale draft.scope.channel) draft.scope
    (by decide : (0 : UInt32).toNat < 4294967296) notes with ⟨all, words⟩ | ⟨found, first⟩ | first
  · rcases Note.allResolve_iff_exists_resolveTo.mp all with ⟨keyOf, resolve⟩
    rcases Note.sequenceEvents_of_resolveTo resolve words with ⟨last, sequenced, -⟩
    rw [sequenced] at refused
    by_cases long : draft.bar.capacity < last.toNat
    · simp only [bind, Except.bind, if_pos long] at refused
      cases refused
      rfl
    · simp only [bind, Except.bind, if_neg long] at refused
      contradiction
  · rw [Note.sequenceEvents_of_firstUnresolved first] at refused
    rcases first with ⟨_, _, _, _, _, _, _, unresolved⟩
    cases refused
    exact unresolved.isOfTables
  · rw [Note.sequenceEvents_of_firstOverflow first] at refused
    cases refused
    rfl

theorem isOfTables_of_step {declaration : Declaration}
    (refused : draft.step keys declaration = .error error) : error.isOfTables = false := by
  cases declaration with
  | assign | defineBar | play =>
      cases refused
      rfl
  | tempo | velocity | channel | program =>
      rcases Quantity.check_bind_eq_error_iff.mp refused with ⟨_, rfl⟩ | ⟨_, accepted⟩
      · rfl
      · contradiction
  | control number value =>
      rcases Quantity.check_bind_eq_error_iff.mp refused with ⟨_, rfl⟩ | ⟨_, rest⟩
      · rfl
      · rcases Quantity.check_bind_eq_error_iff.mp rest with ⟨_, rfl⟩ | ⟨_, accepted⟩
        · rfl
        · contradiction
  | timeSignature | key =>
      rw [step] at refused
      split at refused <;> cases refused
      rfl
  | start | stop | text => contradiction
  | notes list => exact isOfTables_of_addNotes refused

/-- A body is never refused for what the tables of the session hold. -/
theorem isOfTables_of_steps {body : List Declaration}
    (refused : draft.steps keys body = .error error) : error.isOfTables = false := by
  induction body generalizing draft with
  | nil => contradiction
  | cons declaration rest ih =>
      rw [steps] at refused
      cases outcome : draft.step keys declaration with
      | error found =>
          rw [outcome] at refused
          cases refused
          exact isOfTables_of_step outcome
      | ok next =>
          rw [outcome] at refused
          exact ih refused

end Draft

namespace Context

variable {earlier later context next : Context}

/-- What is bound in an earlier context is bound to the same in a later one. -/
structure Extends (earlier later : Context) : Prop where
  keys : ∀ channel note key, earlier.keys.get? channel note = some key →
    later.keys.get? channel note = some key
  bars : ∀ name bar, earlier.bar? name = some bar → later.bar? name = some bar

theorem Extends.refl (context : Context) : context.Extends context :=
  ⟨fun _ _ _ known => known, fun _ _ known => known⟩

theorem Extends.trans {last : Context} (first : earlier.Extends later)
    (second : later.Extends last) : earlier.Extends last where
  keys channel note key known := second.keys channel note key (first.keys channel note key known)
  bars name bar known := second.bars name bar (first.bars name bar known)

/-- A declaration that is accepted extends the tables. -/
theorem Step.extends {declaration : Declaration} {put : Option Bar}
    (step : Step context declaration next put) : context.Extends next where
  keys channel note key known := by
    cases step with
    | assign other _ _ free =>
        have elsewhere : ¬ (channel = context.scope.channel ∧ note = other) := by
          rintro ⟨rfl, rfl⟩
          rw [free] at known
          contradiction
        rw [KeyMap.get?_getD_bind? free, if_neg elsewhere, known]
    | _ => exact known
  bars _ _ known := step.bar?_eq known

/-- A name with a legal key is refused exactly where it has a key already. -/
theorem assign_eq_error_iff {note : Char} {key : UInt8} {error : Error}
    (legal : key.toNat ≤ 127) :
    context.assign note key = .error error ↔
      ∃ existing, context.keys.get? context.scope.channel note = some existing ∧
        error = .duplicateAssignment note existing context.scope.channel := by
  have admitted : Quantity.key.admits key.toNat = true :=
    (Quantity.admits_natCast_iff rfl rfl).mpr legal
  rw [assign, Quantity.check_bind_eq_error_iff, admitted]
  cases context.keys.get? context.scope.channel note with
  | none => simp [pure, Except.pure]
  | some existing => simp [throw, throwThe, MonadExceptOf.throw, eq_comm]

/-- A definition is refused as a duplicate exactly where its own name has a bar already. -/
theorem defineBar_eq_duplicateBar_iff {name other : String} {body : List Declaration} :
    context.defineBar name body = .error (.duplicateBar other) ↔
      other = name ∧ (context.bar? name).isSome = true := by
  cases known : context.bar? name with
  | some bar =>
      rw [defineBar_of_used body known]
      simp [eq_comm]
  | none =>
      rw [defineBar_of_fresh body known]
      refine iff_of_false (fun refused => ?_) (by simp)
      cases outcome : (Draft.start context.scope context.signatures).steps context.keys body with
      | error found =>
          have unrelated := Draft.isOfTables_of_steps outcome
          rw [outcome] at refused
          cases refused
          contradiction
      | ok draft =>
          rw [outcome] at refused
          cases finished : draft.finish <;> simp [finished] at refused

end Context

namespace Session

/-- A session in the middle of a call.  If the call fails, the bars from the mark on go. -/
structure Moment where
  session : Session
  mark : Nat

namespace Moment

open Workspace (evaluateOne)

/-- What can happen to a session next. -/
inductive Next : Moment → Moment → Prop where
  /-- A call begins. -/
  | call (session : Session) (mark : Nat) : Next ⟨session, mark⟩ ⟨session, session.buffer.length⟩
  /-- The call goes on with a declaration that is accepted. -/
  | accept {session next : Session} {mark : Nat} {declaration : Declaration}
      (accepted : evaluateOne declaration ⟨session, false⟩ = .ok () ⟨next, false⟩) :
      Next ⟨session, mark⟩ ⟨next, mark⟩
  /-- The call comes to a declaration that is refused, and drops its bars. -/
  | refuse {session : Session} {left : Workspace} {mark : Nat} {declaration : Declaration}
      {error : Error} (refused : evaluateOne declaration ⟨session, false⟩ = .error error left) :
      Next ⟨session, mark⟩
        ⟨{ left.session with buffer := left.session.buffer.take mark }, mark⟩
  /-- The bars are taken. -/
  | flush (session : Session) (mark : Nat) : Next ⟨session, mark⟩ ⟨session.flush.2, 0⟩

/-- All that can happen to a session from some moment on. -/
def Later : Moment → Moment → Prop := Relation.ReflTransGen Next

variable {earlier later : Moment}

theorem Next.extends (next : Next earlier later) :
    earlier.session.context.Extends later.session.context := by
  cases next with
  | call | flush => exact .refl _
  | @accept session final _ declaration accepted =>
      rw [Workspace.evaluateOne_eq] at accepted
      rcases outcome : session.context.step declaration with error | ⟨reached, put⟩
      · simp [outcome] at accepted
      · rw [outcome] at accepted
        cases accepted
        exact (Context.step_eq_ok_iff.mp outcome).extends
  | @refuse session left _ declaration _ refused =>
      rw [Workspace.evaluateOne_eq] at refused
      rcases outcome : session.context.step declaration with error | ⟨reached, put⟩
      · rw [outcome] at refused
        cases refused
        exact .refl _
      · simp [outcome] at refused

/-- Whatever happens to a session, its tables are extended. -/
theorem Later.extends (happened : Later earlier later) :
    earlier.session.context.Extends later.session.context := by
  induction happened with
  | refl => exact .refl _
  | tail _ next ih => exact ih.trans next.extends

/-- Declarations in a row that are accepted can happen within a call. -/
theorem Later.run {context final : Context} {declarations : List Declaration} {bars : List Bar}
    (ran : context.run declarations = (final, .ok bars)) (buffer : List Bar) (mark : Nat) :
    Later ⟨⟨context, buffer⟩, mark⟩ ⟨⟨final, buffer ++ bars⟩, mark⟩ := by
  induction declarations generalizing context buffer bars with
  | nil =>
      cases ran
      rw [List.append_nil]
      exact .refl
  | cons declaration rest ih =>
      rcases Context.run_cons_eq_ok_iff.mp ran with ⟨next, put, later, step, ranLater, rfl⟩
      have accepted : evaluateOne declaration ⟨⟨context, buffer⟩, false⟩ =
          .ok () ⟨⟨next, buffer ++ put.toList⟩, false⟩ := by
        rw [Workspace.evaluateOne_eq, step]
      rw [← List.append_assoc]
      exact .head (.accept accepted) (ih ranLater _)

/-- A call that fails drops all bars behind its mark, those put out on the way among them. -/
theorem Later.run_failed {context final : Context} {declarations : List Declaration}
    {error : Error} (failed : context.run declarations = (final, .error error))
    {buffer : List Bar} {mark : Nat} (inside : mark ≤ buffer.length) :
    Later ⟨⟨context, buffer⟩, mark⟩ ⟨⟨final, buffer.take mark⟩, mark⟩ := by
  -- The bars up to the refused declaration are put out first, and go with it.
  rcases Context.run_eq_error_iff.mp failed with ⟨_, declaration, bars, _, ran, step⟩
  have refused : evaluateOne declaration ⟨⟨final, buffer ++ bars⟩, false⟩ =
      .error error ⟨⟨final, buffer ++ bars⟩, false⟩ := by
    rw [Workspace.evaluateOne_eq, step]
  have dropped : Next ⟨⟨final, buffer ++ bars⟩, mark⟩
      ⟨⟨final, (buffer ++ bars).take mark⟩, mark⟩ := .refuse refused
  rw [List.take_append_of_le_length inside] at dropped
  exact (Later.run ran buffer mark).tail dropped

end Moment

/-- An evaluation goes through what can happen to its session.  Once its first declarations are
accepted, it has come to a moment from which it goes on to its end. -/
theorem later_evaluate {session middle : Session} {front : List Declaration}
    (accepted : session.evaluate front = (middle, none)) (rest : List Declaration) (mark : Nat) :
    Moment.Later ⟨session, mark⟩ ⟨middle, session.buffer.length⟩ ∧
      Moment.Later ⟨middle, session.buffer.length⟩
        ⟨(session.evaluate (front ++ rest)).1, session.buffer.length⟩ := by
  rcases middle with ⟨context, buffer⟩
  rcases evaluate_eq_none_iff_run.mp accepted with ⟨bars, ran, rfl⟩
  refine ⟨.head (.call session mark) (Moment.Later.run ran session.buffer _), ?_⟩
  rw [evaluate, Context.run_append_of_ok ran]
  rcases onward : context.run rest with ⟨final, error | more⟩
  · have inside : session.buffer.length ≤ (session.buffer ++ bars).length := by simp
    simpa [Except.map] using Moment.Later.run_failed onward inside
  · simpa [Except.map] using Moment.Later.run onward (session.buffer ++ bars) session.buffer.length

/-- Every evaluation, whether it fails or not, goes through moments of which each comes later
than the one before, and so does a session that is flushed.  What is bound at a moment is bound
to the same at every later one: keys to names on channels, and bars to names, so that playing a
name then puts out its bar as it is.  A name with a legal key is refused exactly where it has a
key, with that key, and a definition as a duplicate exactly where its name has a bar; neither
changes anything then. -/
theorem tables_only_grow :
    (∀ (session middle : Session) (front rest : List Declaration) (mark : Nat),
      session.evaluate front = (middle, none) →
      Moment.Later ⟨session, mark⟩ ⟨middle, session.buffer.length⟩ ∧
        Moment.Later ⟨middle, session.buffer.length⟩
          ⟨(session.evaluate (front ++ rest)).1, session.buffer.length⟩) ∧
    (∀ earlier later : Moment, Moment.Later earlier later →
      (∀ channel note key, earlier.session.context.keys.get? channel note = some key →
        later.session.context.keys.get? channel note = some key) ∧
      ∀ name bar, earlier.session.context.bar? name = some bar →
        later.session.context.bar? name = some bar ∧
        Workspace.evaluateOne (.play name) ⟨later.session, false⟩ =
          .ok () ⟨{ later.session with buffer := later.session.buffer ++ [bar] }, false⟩) ∧
    (∀ (session : Session) (note : Char) (key : UInt8) (error : Error) (left : Workspace),
      key.toNat ≤ 127 →
      (Workspace.evaluateOne (.assign note key) ⟨session, false⟩ = .error error left ↔
        left = ⟨session, false⟩ ∧
          ∃ existing, session.context.keys.get? session.context.scope.channel note =
              some existing ∧
            error = .duplicateAssignment note existing session.context.scope.channel)) ∧
    ∀ (session : Session) (name other : String) (body : List Declaration) (left : Workspace),
      Workspace.evaluateOne (.defineBar name body) ⟨session, false⟩ =
          .error (.duplicateBar other) left ↔
        left = ⟨session, false⟩ ∧ other = name ∧ (session.context.bar? name).isSome = true := by
  refine ⟨fun _ _ _ rest mark accepted => later_evaluate accepted rest mark, ?_, ?_, ?_⟩
  · intro earlier later happened
    have grown := happened.extends
    refine ⟨grown.keys, fun name bar known => ⟨grown.bars name bar known, ?_⟩⟩
    have still := grown.bars name bar known
    rw [Workspace.evaluateOne_eq, Context.step, still]
    rfl
  · intro session note key error left legal
    rw [Workspace.evaluateOne_eq, Context.step, ← Context.assign_eq_error_iff legal]
    cases session.context.assign note key <;> simp [Except.map, and_comm, eq_comm]
  · intro session name other body left
    rw [Workspace.evaluateOne_eq, Context.step, ← Context.defineBar_eq_duplicateBar_iff]
    cases session.context.defineBar name body <;> simp [Except.map, and_comm, eq_comm]

/-- A call plays a bar, changes the velocity and the scale, and fails where the bar would be
defined again.  After a flush the bar is still played as it was, and its note has its key. -/
theorem tables_only_grow_failed_call :
    let session := ((ofConfig .standard).evaluate
      [.assign 'c' 60, .defineBar "b" [.notes [.plain 'c']]]).1
    let front : List Declaration := [.velocity 50, .play "b", .key "Eb"]
    let failed := (session.evaluate (front ++ [.defineBar "b" [.stop], .channel 3])).1
    let bar : Bar := ⟨.common, [⟨.voice 0 (.noteOn 60 100), 0, 960, 0⟩,
      ⟨.voice 0 (.noteOff 60), 960, 0, 0⟩]⟩
    failed.context.scope = ⟨0, 50, .common⟩ ∧ failed.buffer = [] ∧
      failed.flush.2.context.keys.get? 0 'c' = some 60 ∧
      Workspace.evaluateOne (.play "b") ⟨failed.flush.2, false⟩ =
        .ok () ⟨⟨failed.context, [bar]⟩, false⟩ ∧
      Workspace.evaluateOne (.assign 'c' 61) ⟨failed, false⟩ =
        .error (.duplicateAssignment 'c' 60 0) ⟨failed, false⟩ ∧
      Workspace.evaluateOne (.defineBar "b" [.stop]) ⟨failed, false⟩ =
        .error (.duplicateBar "b") ⟨failed, false⟩ := by
  intro session front failed bar
  rcases tables_only_grow with ⟨goes, kept, assigned, defined⟩
  have accepted : session.evaluate front = ((session.evaluate front).1, none) := by
    decide +kernel
  have happened := (goes session _ front [.defineBar "b" [.stop], .channel 3] 0 accepted).1.trans
    (goes session _ front [.defineBar "b" [.stop], .channel 3] 0 accepted).2
  have flushed := happened.tail (.flush failed _)
  have key : failed.context.keys.get? 0 'c' = some 60 :=
    (kept _ _ happened).1 0 'c' 60 (by decide +kernel)
  have named : failed.context.bar? "b" = some bar :=
    ((kept _ _ happened).2 "b" bar (by decide +kernel)).1
  have scope : failed.context.scope = ⟨0, 50, .common⟩ := by decide +kernel
  refine ⟨scope, by decide +kernel, (kept _ _ flushed).1 0 'c' 60 (by decide +kernel),
    ((kept _ _ flushed).2 "b" bar (by decide +kernel)).2, ?_, ?_⟩
  · refine (assigned failed 'c' 61 _ _ (by decide)).mpr ⟨rfl, 60, ?_, ?_⟩
    · rw [scope, key]
    · rw [scope]
  · exact (defined failed "b" "b" [.stop] _).mpr ⟨rfl, rfl, by rw [named]; rfl⟩

end Session

end MidiScore
