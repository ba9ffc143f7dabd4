import Mathlib.Data.List.Forall2
import MidiScore.Proofs.Session.Failure

/-!
# The sources of the bars that declarations put out

Every bar has a source: the body that built it, with the context in which that body was
read.  A bar that is played by name has the source of its definition, as often as it is
played; any other bar comes from a single declaration.  The sources are read off the
declarations here, beside the evaluation, so that what is said of a body can be said of the
bars that it puts out, `Context.IsNamedBy.run`.
-/

namespace MidiScore

/-- Where a bar comes from: the declarations of its body, and what was set before them. -/
structure Source where
  context : Context
  body : List Declaration

/-- The bar is the one that the body of the source builds. -/
def Source.Builds (source : Source) (bar : Bar) : Prop :=
  source.context.Builds source.body bar

namespace Context

/-- The sources of named bars after a declaration, the latest first. -/
def named (context : Context) (sources : List (String × Source)) (declaration : Declaration) :
    List (String × Source) :=
  (declaration.definition?.toList.map fun (name, body) => (name, ⟨context, body⟩)) ++ sources

/-- The source of the bar that a declaration puts out. -/
def source? (context : Context) (sources : List (String × Source)) :
    Declaration → Option Source
  | .play name => sources.lookup name
  | declaration => some ⟨context, [declaration]⟩

/-- The sources of the bars that declarations in a row put out, up to the first refused
one. -/
def putAfter (context : Context) (sources : List (String × Source)) :
    List Declaration → List Source
  | [] => []
  | declaration :: rest =>
      match context.step declaration with
      | .error _ => []
      | .ok (next, put) =>
          (put.bind fun _ => context.source? sources declaration).toList ++
            next.putAfter (context.named sources declaration) rest

/-- Every named bar was built by the source of its name. -/
def IsNamedBy (context : Context) (sources : List (String × Source)) : Prop :=
  ∀ name bar, context.bar? name = some bar →
    ∃ source, sources.lookup name = some source ∧ source.Builds bar

theorem Step.isNamedBy {sources : List (String × Source)} {context next : Context}
    {declaration : Declaration} {put : Option Bar} (named : context.IsNamedBy sources)
    (step : Step context declaration next put) :
    next.IsNamedBy (context.named sources declaration) := by
  cases step with
  | assign | play => exact named
  | own declaration draft put run _ =>
      cases declaration with
      | defineBar => contradiction
      | _ => exact named
  | defineBar fresh body draft bar _ run finished =>
      intro name other found
      rw [bar?_define] at found
      by_cases same : name = fresh
      · obtain rfl : bar = other := by simpa [same] using found
        exact ⟨⟨context, body⟩, by simp [Context.named, Declaration.definition?, same],
          draft, run, finished⟩
      · rw [if_neg same] at found
        rcases named name other found with ⟨source, known, builds⟩
        refine ⟨source, ?_, builds⟩
        simpa [Context.named, Declaration.definition?, List.lookup_cons, beq_false_of_ne same]
          using known

theorem Step.exists_source {sources : List (String × Source)} {context next : Context}
    {declaration : Declaration} {bar : Bar} (named : context.IsNamedBy sources)
    (step : Step context declaration next (some bar)) :
    ∃ source, context.source? sources declaration = some source ∧ source.Builds bar := by
  cases step with
  | play name _ known => exact named name bar known
  | own declaration draft _ run finished =>
      cases declaration with
      | play => contradiction
      | _ => exact ⟨_, rfl, draft, run, finished⟩

/-- Declarations in a row put out what their sources build. -/
theorem IsNamedBy.run {sources : List (String × Source)} {context final : Context}
    (named : context.IsNamedBy sources) {declarations : List Declaration} {bars : List Bar}
    (ran : context.run declarations = (final, .ok bars)) :
    List.Forall₂ Source.Builds (context.putAfter sources declarations) bars := by
  induction declarations generalizing context sources bars with
  | nil =>
      cases ran
      exact .nil
  | cons declaration rest ih =>
      rcases run_cons_eq_ok_iff.mp ran with ⟨next, put, later, evaluated, ranLater, rfl⟩
      have step := step_eq_ok_iff.mp evaluated
      have builds := ih (step.isNamedBy named) ranLater
      rw [putAfter, evaluated]
      apply List.rel_append _ builds
      cases put with
      | none => exact .nil
      | some bar =>
          rcases step.exists_source named with ⟨source, found, built⟩
          rw [Option.bind_some, found]
          exact .cons built .nil

end Context

theorem Session.isNamedBy_ofConfig (config : Config) : (ofConfig config).context.IsNamedBy [] := by
  simp [Context.IsNamedBy, Context.bar?, ofConfig]

end MidiScore
