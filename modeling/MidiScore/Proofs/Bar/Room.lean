import MidiScore.Proofs.Session.Reachable

/-!
# Room in a bar

Every note list is checked against the meter in force where it stands, but a bar keeps
the last meter of its body.  A body leaves room for its notes if all of them fall silent
within that meter, and it builds a bar that fits exactly then, `Context.Builds.fits_iff`.
A body without a meter always leaves room.
-/

namespace MidiScore

/-- All events of the bar are over when the bar is. -/
def Bar.Fits (bar : Bar) : Prop :=
  ∀ event ∈ bar.events, event.reach ≤ bar.capacity

instance (bar : Bar) : Decidable bar.Fits :=
  inferInstanceAs (Decidable (∀ event ∈ bar.events, event.reach ≤ bar.capacity))

namespace Declaration

/-- The meter that a declaration sets. -/
def meter? : Declaration → Option Meter
  | .timeSignature meter => some meter
  | _ => none

/-- The tick of its bar at which the notes of a declaration fall silent. -/
def reach : Declaration → Nat
  | .notes list => Note.reach 0 list
  | _ => 0

/-- The last meter that a body sets. -/
def lastMeter? : List Declaration → Option Meter
  | [] => none
  | declaration :: rest => (lastMeter? rest).or declaration.meter?

/-- All notes of a body fall silent within the last meter that it sets. -/
def LeavesRoom (body : List Declaration) : Prop :=
  ∀ meter ∈ lastMeter? body, ∀ declaration ∈ body, declaration.reach ≤ meter.capacity

instance (body : List Declaration) : Decidable (LeavesRoom body) :=
  inferInstanceAs (Decidable (∀ meter ∈ lastMeter? body, _))

/-- One declaration does not set a meter and notes at once. -/
theorem leavesRoom_singleton (declaration : Declaration) : LeavesRoom [declaration] := by
  intro meter isLast
  cases declaration with
  | timeSignature => simp [reach]
  | _ => contradiction

end Declaration

namespace Draft

theorem Step.meter_eq {keys : KeyMap} {draft next : Draft} {declaration : Declaration}
    (step : Step keys draft declaration next) :
    next.bar.meter = declaration.meter?.getD draft.bar.meter := by
  cases step <;> rfl

/-- A tick bounds the events of the bar after a declaration exactly if it bounds those
before it and the notes of the declaration. -/
theorem Step.forall_reach_le_iff {keys : KeyMap} {draft next : Draft}
    {declaration : Declaration} (step : Step keys draft declaration next) {bound : Nat} :
    (∀ event ∈ next.bar.events, event.reach ≤ bound) ↔
      (∀ event ∈ draft.bar.events, event.reach ≤ bound) ∧ declaration.reach ≤ bound := by
  rcases step.exists_added with ⟨added, events_eq, kind⟩
  rw [events_eq, List.forall_mem_append]
  apply and_congr_right
  intro _
  rcases kind with ⟨instant, noNotes⟩ | ⟨list, rfl, sequenced, _⟩
  · have silent : declaration.reach = 0 := by
      cases declaration with
      | notes list => exact absurd rfl (noNotes list)
      | _ => rfl
    have ended : ∀ event ∈ added, event.reach ≤ bound := by
      intro event member
      rcases instant event member with ⟨position, duration⟩
      simp [Event.reach, position, duration]
    simpa [silent] using ended
  · exact sequenced.forall_reach_le_iff

/-- The check of note lists: where a declaration stands, its notes have room. -/
theorem Step.reach_le_capacity {keys : KeyMap} {draft next : Draft} {declaration : Declaration}
    (step : Step keys draft declaration next) : declaration.reach ≤ draft.bar.capacity := by
  cases step with
  | notes list _ _ fits =>
      have within := Note.reach_le 0 list
      rw [Nat.zero_add] at within
      exact Nat.le_trans within fits
  | _ => exact Nat.zero_le _

section

variable {keys : KeyMap} {draft final : Draft} {body : List Declaration}

theorem meter_eq_of_steps (run : draft.steps keys body = .ok final) :
    final.bar.meter = (Declaration.lastMeter? body).getD draft.bar.meter := by
  induction body generalizing draft with
  | nil =>
      cases run
      rfl
  | cons declaration rest ih =>
      rcases steps_cons_eq_ok_iff.mp run with ⟨next, step, run⟩
      rw [ih run, step.meter_eq, Declaration.lastMeter?]
      cases Declaration.lastMeter? rest <;> rfl

theorem forall_reach_le_iff_of_steps (run : draft.steps keys body = .ok final) {bound : Nat} :
    (∀ event ∈ final.bar.events, event.reach ≤ bound) ↔
      (∀ event ∈ draft.bar.events, event.reach ≤ bound) ∧
        ∀ declaration ∈ body, declaration.reach ≤ bound := by
  induction body generalizing draft with
  | nil =>
      cases run
      simp
  | cons declaration rest ih =>
      rcases steps_cons_eq_ok_iff.mp run with ⟨next, step, run⟩
      rw [ih run, step.forall_reach_le_iff, List.forall_mem_cons, and_assoc]

/-- Without a new meter the check of each note list is made against the same capacity. -/
theorem reach_le_capacity_of_steps (run : draft.steps keys body = .ok final)
    (noMeter : Declaration.lastMeter? body = none) :
    ∀ declaration ∈ body, declaration.reach ≤ draft.bar.capacity := by
  induction body generalizing draft with
  | nil => simp
  | cons declaration rest ih =>
      rcases steps_cons_eq_ok_iff.mp run with ⟨next, step, run⟩
      rcases Option.or_eq_none_iff.mp noMeter with ⟨noLater, notHere⟩
      have same : next.bar.meter = draft.bar.meter := by
        rw [step.meter_eq, notHere]
        rfl
      have later := ih run noLater
      rw [Bar.capacity, same] at later
      exact List.forall_mem_cons.mpr ⟨step.reach_le_capacity, later⟩

end

end Draft

/-- A body builds a bar that fits exactly when it leaves room. -/
theorem Context.Builds.fits_iff {context : Context} {body : List Declaration} {bar : Bar}
    (built : context.Builds body bar) : bar.Fits ↔ Declaration.LeavesRoom body := by
  rcases built with ⟨draft, run, finished⟩
  obtain rfl := Draft.bar_eq_of_finish finished
  have meter_eq := Draft.meter_eq_of_steps run
  rw [Bar.Fits, Draft.forall_reach_le_iff_of_steps run, Declaration.LeavesRoom, Bar.capacity]
  cases last : Declaration.lastMeter? body with
  | none =>
      have same : draft.bar.meter = context.scope.meter := by
        rw [meter_eq, last]
        rfl
      have room := Draft.reach_le_capacity_of_steps run last
      simpa [Draft.start, Bar.capacity, same] using room
  | some meter =>
      have same : draft.bar.meter = meter := by
        rw [meter_eq, last]
        rfl
      simp [Draft.start, same]

end MidiScore
