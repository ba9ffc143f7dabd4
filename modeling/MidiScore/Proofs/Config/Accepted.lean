import MidiScore.Config.Text
import MidiScore.Proofs.Meter.Text
import MidiScore.Proofs.Note.Resolution
import MidiScore.Proofs.Session.Reachable

/-!
# Accepted settings

A session starts with the standard settings or with those that a text gives.  Either
way its meter is valid, and since declarations set none but valid meters, every bar
of such a session has a capacity.
-/

namespace MidiScore

namespace Meter

theorem isMeasurable_of_isValid {meter : Meter} (valid : meter.isValid = true) :
    meter.isMeasurable = true := by
  rw [isMeasurable, bne_iff_ne]
  intro zero
  simp [isValid, zero, isNoteValue, noteValues] at valid

end Meter

namespace Config

/-- The settings that a session may start with. -/
def IsAccepted (config : Config) : Prop :=
  config = standard ∨ ∃ text, ofText text = .ok config

namespace Request

variable {request : Request} {config : Config}

theorem admits_of_number {quantity : Quantity} {standard value : Int}
    {requested : Option (Option Int)} (found : number quantity standard requested = .ok value) :
    quantity.admits value = true := by
  rw [number] at found
  split at found
  · rename_i legal
    cases found
    exact legal
  · contradiction

theorem isValid_of_meterOf {requested : Option (Option String)} {meter : Meter}
    (found : meterOf requested = .ok meter) : meter.isValid = true := by
  rw [meterOf] at found
  split at found
  · cases found
    rfl
  · split at found
    · rename_i read
      cases found
      exact (Meter.ofText?_eq_some_iff.mp read).2
    · contradiction

/-- Tempo, velocity and meter of checked settings were checked for themselves. -/
theorem exists_of_check (checked : request.check = .ok config) :
    ∃ tempo velocity, number .tempo standard.tempo.toNat request.tempo = .ok tempo ∧
      number .velocity standard.velocity.toNat request.velocity = .ok velocity ∧
      meterOf request.meter = .ok config.meter ∧
      config.tempo = tempo.toNat.toUInt16 ∧ config.velocity = velocity.toNat.toUInt8 := by
  rcases bind_eq_ok_iff.mp checked with ⟨tempo, foundTempo, checked⟩
  rcases bind_eq_ok_iff.mp checked with ⟨velocity, foundVelocity, checked⟩
  rcases bind_eq_ok_iff.mp checked with ⟨meter, foundMeter, checked⟩
  cases checked
  exact ⟨tempo, velocity, foundTempo, foundVelocity, foundMeter, rfl, rfl⟩

end Request

theorem exists_check_of_ofText {text : String} {config : Config}
    (read : ofText text = .ok config) : ∃ request : Request, request.check = .ok config := by
  -- an equation for it would first have the whole reader of documents reduced
  delta ofText at read
  split at read
  · exact ⟨_, read⟩
  · contradiction

theorem IsAccepted.meter_isValid {config : Config} (accepted : config.IsAccepted) :
    config.meter.isValid = true := by
  rcases accepted with rfl | ⟨text, read⟩
  · rfl
  · rcases exists_check_of_ofText read with ⟨request, checked⟩
    rcases Request.exists_of_check checked with ⟨_, _, _, _, found, _⟩
    exact Request.isValid_of_meterOf found

theorem IsAccepted.tempo_pos {config : Config} (accepted : config.IsAccepted) :
    0 < config.tempo.toNat := by
  rcases accepted with rfl | ⟨text, read⟩
  · decide
  · rcases exists_check_of_ofText read with ⟨request, checked⟩
    rcases Request.exists_of_check checked with ⟨tempo, _, found, _, _, tempo_eq, _⟩
    have bounds : 1 ≤ tempo ∧ tempo ≤ 65535 :=
      Quantity.admits_iff.mp (Request.admits_of_number found)
    have reduced : config.tempo.toNat = tempo.toNat % 65536 := congrArg UInt16.toNat tempo_eq
    omega

end Config

/-- Declarations set none but valid meters. -/
theorem Draft.Step.meter_isValid {keys : KeyMap} {draft next : Draft} {declaration : Declaration}
    (valid : draft.scope.meter.isValid = true ∧ draft.bar.meter.isValid = true)
    (step : Step keys draft declaration next) :
    next.scope.meter.isValid = true ∧ next.bar.meter.isValid = true := by
  cases step with
  | timeSignature meter legal => exact ⟨legal, legal⟩
  | _ => exact valid

/-- From accepted settings every bar that waits has a valid meter. -/
theorem Session.Reachable.meter_isValid {config : Config}
    {definitions : List (String × List Declaration)} {session : Session}
    (accepted : config.IsAccepted) (reached : Reachable config definitions session) :
    ∀ bar ∈ session.buffer, bar.meter.isValid = true := by
  have invariant := Invariant.ofBuilt (·.meter.isValid = true) (·.meter.isValid = true)
    fun inScope run => Draft.steps_invariant Draft.Step.meter_isValid ⟨inScope, inScope⟩ run
  exact (invariant.reachable ⟨accepted.meter_isValid, by simp [ofConfig, Context.bar?]⟩ reached).2

end MidiScore
