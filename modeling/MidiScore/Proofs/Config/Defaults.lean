import MidiScore.Proofs.Config.Accepted
import MidiScore.Proofs.Session.Failure

/-!
# Settings are declarations in front of a score

The settings that a text may give obey the bounds of declarations, and a session that starts with
them is the standard session after two declarations, one for the velocity and one for the meter.
-/

namespace MidiScore

theorem Draft.exists_step_timeSignature_iff {keys : KeyMap} {draft : Draft} {meter : Meter} :
    (∃ next, draft.step keys (.timeSignature meter) = .ok next) ↔ meter.isValid = true := by
  rw [step]
  split <;> simp [*]

namespace Context

variable {context : Context}

theorem step_velocity {value : UInt8} (legal : value.toNat ≤ 127) :
    context.step (.velocity value) = .ok ({ context with scope.velocity := value }, none) := by
  have admitted : Quantity.velocity.admits value.toNat = true :=
    (Quantity.admits_natCast_iff rfl rfl).mpr legal
  rw [step_of_isLocal rfl, Draft.step, Quantity.check, if_pos admitted]
  rfl

theorem step_timeSignature (context : Context) (meter : Meter) :
    context.step (.timeSignature meter) =
      if meter.isValid then .ok ({ context with scope.meter := meter }, none)
      else .error (.invalidMeter meter) := by
  rw [step_of_isLocal rfl, Draft.step]
  cases meter.isValid <;> rfl

end Context

namespace Session

/-- Declarations that only set something can be taken for granted. -/
theorem evaluate_append_of_silent {session : Session} {middle : Context}
    {front : List Declaration} (silent : session.context.run front = (middle, .ok []))
    (rest : List Declaration) :
    session.evaluate (front ++ rest) = evaluate ⟨middle, session.buffer⟩ rest := by
  rw [evaluate, evaluate, Context.run_append_of_ok silent]
  rcases middle.run rest with ⟨final, error | bars⟩ <;> rfl

theorem evaluate_timeSignature_iff {session : Session} {meter : Meter} :
    (session.evaluate [.timeSignature meter]).2 = none ↔ meter.isValid = true := by
  rw [evaluate, Context.run, Context.step_timeSignature]
  by_cases valid : meter.isValid = true
  · simp [valid, Context.run, Except.map]
  · simp [valid]

end Session

namespace Config

theorem IsAccepted.velocity_le {config : Config} (accepted : config.IsAccepted) :
    config.velocity.toNat ≤ 127 := by
  rcases accepted with rfl | ⟨text, read⟩
  · decide
  · rcases exists_check_of_ofText read with ⟨request, checked⟩
    rcases Request.exists_of_check checked with ⟨_, velocity, _, found, _, _, velocity_eq⟩
    have bounded : velocity ≤ 127 :=
      (Quantity.admits_iff.mp (Request.admits_of_number found)).2
    rw [velocity_eq, Nat.toUInt8, UInt8.toNat_ofNat']
    omega

/-- Two declarations make the standard session start with other settings. -/
theorem run_declarations {config : Config} (accepted : config.IsAccepted) :
    (Session.ofConfig standard).context.run
        [.velocity config.velocity, .timeSignature config.meter] =
      ((Session.ofConfig config).context, .ok []) := by
  refine Context.run_cons_eq_ok_iff.mpr
    ⟨_, none, [], Context.step_velocity accepted.velocity_le, ?_, rfl⟩
  refine Context.run_cons_eq_ok_iff.mpr ⟨_, none, [], ?_, rfl, rfl⟩
  rw [Context.step_timeSignature, if_pos accepted.meter_isValid]
  rfl

theorem evaluate_ofConfig {config : Config} (accepted : config.IsAccepted)
    (score : List Declaration) :
    (Session.ofConfig standard).evaluate
        (.velocity config.velocity :: .timeSignature config.meter :: score) =
      (Session.ofConfig config).evaluate score :=
  Session.evaluate_append_of_silent (run_declarations accepted) score

/-- A meter is read from a text exactly if it is written there, as two numerals around the first
stroke, and has 1 to 128 beats of a power of two from 1 to 128.  These are the meters that a
declaration may set, outside of bar bodies and in them, and words of 32 bits are enough to read
them.  And a score under the settings that a text gives compiles to the same bars, or fails with
the same error, as under the standard ones when its first declarations set the velocity and the
meter. -/
theorem settings_are_declarations (text : String) (meter : Meter) :
    let legal := 1 ≤ meter.numerator.toNat ∧ meter.numerator.toNat ≤ 128 ∧
      ∃ power ≤ 7, meter.denominator.toNat = 2 ^ power
    (Meter.ofText? text = some meter ↔ meter.IsWritten text ∧ legal) ∧
    Meter.ofTextWord? text = Meter.ofText? text ∧
    (∀ session : Session, (session.evaluate [.timeSignature meter]).2 = none ↔ legal) ∧
    (∀ keys draft, (∃ next, Draft.step keys draft (.timeSignature meter) = .ok next) ↔ legal) ∧
    ∀ config : Config, config.IsAccepted → ∀ score, compile config score =
      compile standard (.velocity config.velocity :: .timeSignature config.meter :: score) := by
  intro legal
  refine ⟨?_, Meter.ofTextWord?_eq text, fun session => ?_, fun keys draft => ?_,
    fun config accepted score => ?_⟩
  · exact Meter.ofText?_eq_some_iff.trans (and_congr_right' Meter.isValid_iff)
  · exact Session.evaluate_timeSignature_iff.trans Meter.isValid_iff
  · exact Draft.exists_step_timeSignature_iff.trans Meter.isValid_iff
  · rw [compile, compile, evaluate_ofConfig accepted]

/-- Three quarters and a lower velocity, from a text with a sign, a leading zero and blanks around
the meter.  They are in force again after a named bar that sets others, and four quarters are too
many then. -/
theorem settings_are_declarations_three_quarters :
    let config : Config := ⟨120, 50, ⟨3, 4⟩, none⟩
    let quarter : Note := .plain 'c'
    let score : List Declaration := [.assign 'c' 60,
      .defineBar "march" [.timeSignature ⟨2, 4⟩, .velocity 90, .notes [quarter, quarter]],
      .play "march", .notes (List.replicate 4 quarter)]
    ofText "velocity: 50\ntime-signature: ' +03 / 4'\n" = .ok config ∧
      Meter.ofText? " +03 / 4" = some config.meter ∧
      compile config score =
        compile standard (.velocity 50 :: .timeSignature ⟨3, 4⟩ :: score) ∧
      compile config score = .error (.barOverflow 960 ⟨3, 4⟩) := by
  intro config quarter score
  have read : ofText "velocity: 50\ntime-signature: ' +03 / 4'\n" = .ok config := by
    decide +kernel
  rcases settings_are_declarations " +03 / 4" config.meter with ⟨parsed, _, _, _, same⟩
  have written : config.meter.IsWritten " +03 / 4" :=
    ⟨⟨[' '], true, ['0', '3'], [' '], List.forall_mem_singleton.mpr rfl, by decide, by simp,
        List.forall_mem_singleton.mpr rfl⟩,
      ⟨[' '], false, ['4'], [], List.forall_mem_singleton.mpr rfl, by decide, by simp,
        List.forall_mem_nil _⟩,
      by decide, by decide, by decide, by decide⟩
  have given : Meter.ofText? " +03 / 4" = some config.meter :=
    parsed.mpr ⟨written, by decide, by decide, 2, by decide, by decide⟩
  exact ⟨read, given, same config (.inr ⟨_, read⟩) score, by decide +kernel⟩

end Config

end MidiScore
