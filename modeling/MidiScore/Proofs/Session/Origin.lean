import MidiScore.Proofs.Session.Reachable

/-!
# Where bars come from

Every bar that waits in a session was built by a body: by the one of its definition if it
was played by name, and by a single declaration otherwise.  Names are given once, so that
a named bar stays the bar that its definition built.
-/

namespace MidiScore

namespace Context

/-- The definitions are those of the named bars, and built them. -/
structure Accounts (definitions : List (String × List Declaration)) (context : Context) :
    Prop where
  named : ∀ name bar, context.bar? name = some bar →
    ∃ definition ∈ definitions, definition.1 = name
  built : ∀ definition ∈ definitions, ∃ bar, context.bar? definition.1 = some bar ∧
    ∃ earlier : Context, earlier.Builds definition.2 bar

/-- A bar has a name or was built by a single declaration. -/
def IsSource (context : Context) (bar : Bar) : Prop :=
  (∃ name, context.bar? name = some bar) ∨
    ∃ (earlier : Context) (declaration : Declaration), earlier.Builds [declaration] bar

/-- No declaration takes a name from its bar. -/
theorem Step.bar?_eq {context next : Context} {declaration : Declaration} {put : Option Bar}
    (step : Step context declaration next put) {name : String} {bar : Bar}
    (known : context.bar? name = some bar) : next.bar? name = some bar := by
  cases step with
  | defineBar fresh body draft new unused run finished =>
      have other : name ≠ fresh := by
        rintro rfl
        rw [unused] at known
        contradiction
      rw [bar?_define, if_neg other, known]
  | _ => exact known

theorem Step.accounts {definitions : List (String × List Declaration)} {context next : Context}
    {declaration : Declaration} {put : Option Bar} (accounts : context.Accounts definitions)
    (step : Step context declaration next put) :
    next.Accounts (declaration.definition?.toList ++ definitions) := by
  have older : ∀ definition ∈ definitions, ∃ bar, next.bar? definition.1 = some bar ∧
      ∃ earlier : Context, earlier.Builds definition.2 bar := by
    intro definition member
    rcases accounts.built definition member with ⟨bar, known, built⟩
    exact ⟨bar, step.bar?_eq known, built⟩
  cases step with
  | assign | play => exact ⟨accounts.named, accounts.built⟩
  | own _ draft _ run _ =>
      have noDefinition : declaration.definition? = none := by
        cases declaration with
        | defineBar => contradiction
        | _ => rfl
      rw [noDefinition]
      exact ⟨accounts.named, accounts.built⟩
  | defineBar fresh body draft new unused run finished =>
      refine ⟨fun name bar found => ?_, ?_⟩
      · rw [bar?_define] at found
        split at found
        · rename_i same
          exact ⟨(fresh, body), List.mem_cons_self, same.symm⟩
        · rcases accounts.named name bar found with ⟨definition, member, same⟩
          exact ⟨definition, List.mem_cons_of_mem _ member, same⟩
      · refine List.forall_mem_cons.mpr ⟨⟨new, ?_, context, draft, run, finished⟩, older⟩
        rw [bar?_define, if_pos rfl]

theorem accountsInvariant :
    Session.Invariant (fun definitions context => context.Accounts definitions)
      (fun _ context bar => context.IsSource bar) where
  holds accounts step := step.accounts accounts
  puts := by
    intro _ context _ _ bar _ step
    cases step with
    | play name _ known => exact .inl ⟨name, known⟩
    | own _ draft _ run finished => exact .inr ⟨context, _, draft, run, finished⟩
  keeps := by
    intro _ _ _ _ _ bar _ step source
    rcases source with ⟨name, known⟩ | built
    · exact .inl ⟨name, step.bar?_eq known⟩
    · exact .inr built

end Context

namespace Session.Reachable

variable {config : Config} {definitions : List (String × List Declaration)} {session : Session}

theorem accounts (reached : Reachable config definitions session) :
    session.context.Accounts definitions :=
  (Context.accountsInvariant.reachable ⟨by simp [ofConfig, Context.bar?], by simp⟩ reached).1

theorem isSource (reached : Reachable config definitions session) :
    ∀ bar ∈ session.buffer, session.context.IsSource bar :=
  (Context.accountsInvariant.reachable ⟨by simp [ofConfig, Context.bar?], by simp⟩ reached).2

/-- The body of a definition built the bar that has its name. -/
theorem builds_of_definition (reached : Reachable config definitions session)
    {definition : String × List Declaration} {bar : Bar} (member : definition ∈ definitions)
    (known : session.context.bar? definition.1 = some bar) :
    ∃ earlier : Context, earlier.Builds definition.2 bar := by
  rcases reached.accounts.built definition member with ⟨built, found, builds⟩
  obtain rfl : built = bar := Option.some.inj (found.symm.trans known)
  exact builds

end Session.Reachable

end MidiScore
