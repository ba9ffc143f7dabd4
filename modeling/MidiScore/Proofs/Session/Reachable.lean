import MidiScore.Proofs.Draft.Transition
import MidiScore.Session.Flush

/-!
# Reachable sessions

`Context.Step` lists what an accepted declaration does outside of bar bodies;
`Session.Reachable` is every session that evaluations and flushes lead to, failed
evaluations among them, with the definitions of bars that were accepted on the way.

An invariant is proved for one declaration at a time: `Session.Invariant` collects
what has to be shown, and `Invariant.reachable` carries it through every run.
Properties of single bars need even less, `Reachable.forall_bar`: they hold of
all bars as soon as they hold of every bar that some body builds.
-/

namespace MidiScore

/-- The name and the body that a declaration gives to a bar. -/
def Declaration.definition? : Declaration → Option (String × List Declaration)
  | .defineBar name body => some (name, body)
  | _ => none

theorem Draft.bar_eq_of_finish {draft : Draft} {bar : Bar} (finished : draft.finish = some bar) :
    bar = draft.bar := by
  rw [finish] at finished
  split at finished
  · contradiction
  · exact (Option.some.inj finished).symm

namespace Context

/-- In this context a body of declarations builds the bar. -/
def Builds (context : Context) (body : List Declaration) (bar : Bar) : Prop :=
  ∃ draft, (Draft.start context.scope context.signatures).steps context.keys body = .ok draft ∧
    draft.finish = some bar

theorem bar?_define {context : Context} {fresh name : String} {bar : Bar}
    {signatures : Signatures} :
    bar? { context with bars := (fresh, bar) :: context.bars, signatures } name =
      if name = fresh then some bar else context.bar? name := by
  by_cases same : name = fresh
  · simp [bar?, same]
  · simp [bar?, List.lookup_cons, beq_false_of_ne same, same]

/-- What each accepted declaration makes of a context, and the bar that it puts out. -/
inductive Step (context : Context) : Declaration → Context → Option Bar → Prop where
  | assign (note : Char) (key : UInt8) (legal : Quantity.key.admits key.toNat)
      (free : context.keys.get? context.scope.channel note = none) :
      Step context (.assign note key)
        { context with
          keys := (context.keys.bind? context.scope.channel note key).getD context.keys } none
  | defineBar (name : String) (body : List Declaration) (draft : Draft) (bar : Bar)
      (fresh : context.bar? name = none)
      (run : (Draft.start context.scope context.signatures).steps context.keys body = .ok draft)
      (finished : draft.finish = some bar) :
      Step context (.defineBar name body)
        { context with
          bars := (name, bar) :: context.bars
          signatures := draft.signatures } none
  | play (name : String) (bar : Bar) (known : context.bar? name = some bar) :
      Step context (.play name) context (some bar)
  | own (declaration : Declaration) (draft : Draft) (put : Option Bar)
      (run : (Draft.start context.scope context.signatures).steps context.keys [declaration] =
        .ok draft)
      (finished : draft.finish = put) :
      Step context declaration
        { context with scope := draft.scope, signatures := draft.signatures } put

theorem assign_eq_ok_iff {context next : Context} {note : Char} {key : UInt8} :
    context.assign note key = .ok next ↔
      Quantity.key.admits key.toNat = true ∧
      context.keys.get? context.scope.channel note = none ∧
      next = { context with
        keys := (context.keys.bind? context.scope.channel note key).getD context.keys } := by
  rw [assign, Quantity.check_bind_eq_ok_iff]
  apply and_congr_right
  intro _
  cases context.keys.get? context.scope.channel note with
  | none => simp [pure, Except.pure, eq_comm]
  | some existing => simp [throw, throwThe, MonadExceptOf.throw]

theorem defineBar_eq_ok_iff {context next : Context} {name : String} {body : List Declaration} :
    context.defineBar name body = .ok next ↔
      context.bar? name = none ∧
      ∃ draft bar,
        (Draft.start context.scope context.signatures).steps context.keys body = .ok draft ∧
        draft.finish = some bar ∧
        next = { context with
          bars := (name, bar) :: context.bars
          signatures := draft.signatures } := by
  rw [defineBar]
  cases context.bar? name with
  | some bar => simp [throw, throwThe, MonadExceptOf.throw, bind, Except.bind]
  | none =>
      simp only [Option.isSome_none, Bool.false_eq_true, if_false, bind_eq_ok_iff, true_and]
      constructor
      · rintro ⟨draft, run, rest⟩
        cases finished : draft.finish with
        | none =>
            rw [finished] at rest
            contradiction
        | some bar =>
            rw [finished] at rest
            cases rest
            exact ⟨draft, bar, run, finished, rfl⟩
      · rintro ⟨draft, bar, run, finished, rfl⟩
        refine ⟨draft, run, ?_⟩
        rw [finished]
        rfl

/-- A context accepts exactly the declarations that `Step` lists. -/
theorem step_eq_ok_iff {context next : Context} {declaration : Declaration} {put : Option Bar} :
    context.step declaration = .ok (next, put) ↔ Step context declaration next put := by
  constructor
  · intro accepted
    cases declaration with
    | assign note key =>
        cases assigned : context.assign note key with
        | error error => simp [step, assigned, Except.map] at accepted
        | ok result =>
            rcases assign_eq_ok_iff.mp assigned with ⟨legal, free, rfl⟩
            simp only [step, assigned, Except.map] at accepted
            cases accepted
            exact .assign note key legal free
    | defineBar name body =>
        cases defined : context.defineBar name body with
        | error error => simp [step, defined, Except.map] at accepted
        | ok result =>
            rcases defineBar_eq_ok_iff.mp defined with ⟨fresh, draft, bar, run, finished, rfl⟩
            simp only [step, defined, Except.map] at accepted
            cases accepted
            exact .defineBar name body draft bar fresh run finished
    | play name =>
        rw [step] at accepted
        split at accepted
        · contradiction
        · cases accepted
          exact .play name _ ‹_›
    | _ =>
        rcases bind_eq_ok_iff.mp accepted with ⟨draft, run, finished⟩
        cases finished
        exact .own _ draft _ (Draft.steps_singleton.trans run) rfl
  · intro listed
    cases listed with
    | assign note key legal free =>
        simp only [step, assign_eq_ok_iff.mpr ⟨legal, free, rfl⟩, Except.map]
    | defineBar name body draft bar fresh run finished =>
        simp only [step, defineBar_eq_ok_iff.mpr ⟨fresh, draft, bar, run, finished, rfl⟩,
          Except.map]
    | play name bar known => simp only [step, known]
    | own declaration draft put run finished =>
        rw [Draft.steps_singleton] at run
        subst finished
        cases declaration with
        | assign | defineBar | play => contradiction
        | _ => exact bind_eq_ok_iff.mpr ⟨draft, run, rfl⟩

/-- The definitions of bars among declarations that are accepted one after another, the
latest first. -/
def definitions (context : Context) : List Declaration → List (String × List Declaration)
  | [] => []
  | declaration :: rest =>
      match context.step declaration with
      | .error _ => []
      | .ok (next, _) => next.definitions rest ++ declaration.definition?.toList

end Context

namespace Session

/-- The sessions that runs from some settings lead to, with the definitions of bars that
were accepted on the way, the latest first. -/
inductive Reachable (config : Config) : List (String × List Declaration) → Session → Prop where
  | start : Reachable config [] (ofConfig config)
  | evaluate {definitions : List (String × List Declaration)} {session : Session}
      (reached : Reachable config definitions session) (declarations : List Declaration) :
      Reachable config (session.context.definitions declarations ++ definitions)
        (session.evaluate declarations).1
  | flush {definitions : List (String × List Declaration)} {session : Session}
      (reached : Reachable config definitions session) :
      Reachable config definitions session.flush.2

/-- `Holds` of a context and `Good` of every bar that waits are preserved by each
accepted declaration. -/
structure Invariant (Holds : List (String × List Declaration) → Context → Prop)
    (Good : List (String × List Declaration) → Context → Bar → Prop) : Prop where
  holds : ∀ {definitions context declaration next put}, Holds definitions context →
    Context.Step context declaration next put →
    Holds (declaration.definition?.toList ++ definitions) next
  puts : ∀ {definitions context declaration next bar}, Holds definitions context →
    Context.Step context declaration next (some bar) →
    Good (declaration.definition?.toList ++ definitions) next bar
  keeps : ∀ {definitions context declaration next put bar}, Holds definitions context →
    Context.Step context declaration next put → Good definitions context bar →
    Good (declaration.definition?.toList ++ definitions) next bar

namespace Invariant

variable {Holds : List (String × List Declaration) → Context → Prop}
  {Good : List (String × List Declaration) → Context → Bar → Prop}

/-- Declarations in a row preserve an invariant, up to the first one that is refused, and
all the bars that they put out are good. -/
theorem run (invariant : Invariant Holds Good) (declarations : List Declaration)
    {definitions : List (String × List Declaration)} {context : Context}
    (start : Holds definitions context) :
    Holds (context.definitions declarations ++ definitions) (context.run declarations).1 ∧
      (∀ bar, Good definitions context bar →
        Good (context.definitions declarations ++ definitions)
          (context.run declarations).1 bar) ∧
      ∀ bars, (context.run declarations).2 = .ok bars →
        ∀ bar ∈ bars, Good (context.definitions declarations ++ definitions)
          (context.run declarations).1 bar := by
  induction declarations generalizing definitions context with
  | nil =>
      refine ⟨start, fun _ good => good, ?_⟩
      rintro bars ⟨⟩
      simp
  | cons declaration rest ih =>
      rw [Context.run, Context.definitions]
      cases evaluated : context.step declaration with
      | error error => exact ⟨start, fun _ good => good, nofun⟩
      | ok result =>
          rcases result with ⟨next, put⟩
          have step := Context.step_eq_ok_iff.mp evaluated
          rcases ih (invariant.holds start step) with ⟨holds, keeps, puts⟩
          simp only [List.append_assoc]
          refine ⟨holds, fun bar good => keeps bar (invariant.keeps start step good), ?_⟩
          intro bars finished bar member
          cases later : (next.run rest).2 with
          | error error =>
              rw [later] at finished
              contradiction
          | ok others =>
              rw [later] at finished
              cases finished
              rcases List.mem_append.mp member with here | there
              · obtain rfl : put = some bar := by simpa using here
                exact keeps bar (invariant.puts start step)
              · exact puts others later bar there

/-- An invariant that holds at the start holds of every reachable session. -/
theorem reachable (invariant : Invariant Holds Good) {config : Config}
    {definitions : List (String × List Declaration)} {session : Session}
    (start : Holds [] (ofConfig config).context) (reached : Reachable config definitions session) :
    Holds definitions session.context ∧
      ∀ bar ∈ session.buffer, Good definitions session.context bar := by
  induction reached with
  | start => exact ⟨start, by simp [ofConfig]⟩
  | @evaluate definitions session _ declarations ih =>
      rcases invariant.run declarations ih.1 with ⟨holds, keeps, puts⟩
      rw [evaluate]
      generalize session.context.definitions declarations = accepted at *
      rcases ran : session.context.run declarations with ⟨context, error | bars⟩
      · rw [ran] at holds keeps
        exact ⟨holds, fun bar member => keeps bar (ih.2 bar member)⟩
      · rw [ran] at holds keeps puts
        refine ⟨holds, fun bar member => ?_⟩
        rcases List.mem_append.mp member with before | now
        · exact keeps bar (ih.2 bar before)
        · exact puts bars rfl bar now
  | flush _ ih => exact ⟨ih.1, by simp [flush]⟩

end Invariant

/-- Bars that a body builds stay as they are, so that an invariant of bars only has to
hold of what a body builds, given what is known of the scope in which it starts. -/
theorem Invariant.ofBuilt (InScope : Scope → Prop) (Good : Bar → Prop)
    (built : ∀ {context : Context} {body : List Declaration} {draft : Draft},
      InScope context.scope →
      (Draft.start context.scope context.signatures).steps context.keys body = .ok draft →
      InScope draft.scope ∧ Good draft.bar) :
    Invariant
      (fun _ context => InScope context.scope ∧
        ∀ name bar, context.bar? name = some bar → Good bar)
      (fun _ _ bar => Good bar) where
  holds := by
    rintro _ context _ _ _ ⟨inScope, named⟩ step
    cases step with
    | assign | play => exact ⟨inScope, named⟩
    | own _ draft _ run _ => exact ⟨(built inScope run).1, named⟩
    | defineBar fresh body draft bar _ run finished =>
        refine ⟨inScope, fun name other found => ?_⟩
        rw [Context.bar?_define] at found
        split at found
        · cases found
          rw [Draft.bar_eq_of_finish finished]
          exact (built inScope run).2
        · exact named name other found
  puts := by
    rintro _ context _ _ bar ⟨inScope, named⟩ step
    cases step with
    | play name _ known => exact named name bar known
    | own _ draft _ run finished =>
        rw [Draft.bar_eq_of_finish finished]
        exact (built inScope run).2
  keeps _ _ good := good

/-- What holds of every bar that a body builds holds of all bars that wait. -/
theorem Reachable.forall_bar {Good : Bar → Prop}
    (built : ∀ {context : Context} {body : List Declaration} {draft : Draft},
      (Draft.start context.scope context.signatures).steps context.keys body = .ok draft →
      Good draft.bar)
    {config : Config} {definitions : List (String × List Declaration)} {session : Session}
    (reached : Reachable config definitions session) : ∀ bar ∈ session.buffer, Good bar := by
  have invariant := Invariant.ofBuilt (fun _ => True) Good fun _ run => ⟨trivial, built run⟩
  exact (invariant.reachable ⟨trivial, by simp [ofConfig, Context.bar?]⟩ reached).2

/-- The bars of a score are those that its session returns, if no declaration is refused. -/
theorem compile_eq_ok_iff {config : Config} {declarations : List Declaration} {bars : List Bar} :
    compile config declarations = .ok bars ↔
      ((ofConfig config).evaluate declarations).2 = none ∧
        ((ofConfig config).evaluate declarations).1.flush.1 = bars := by
  rw [compile]
  rcases (ofConfig config).evaluate declarations with ⟨session, _ | error⟩
  · simp
  · simp

/-- The bars of a score are those that some reachable session returns. -/
theorem exists_reachable_of_compile {config : Config} {declarations : List Declaration}
    {bars : List Bar} (compiled : compile config declarations = .ok bars) :
    ∃ definitions session, Reachable config definitions session ∧ session.flush.1 = bars :=
  ⟨_, _, Reachable.start.evaluate declarations, (compile_eq_ok_iff.mp compiled).2⟩

end Session

end MidiScore
