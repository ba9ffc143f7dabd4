import MidiScore.Proofs.Note.Sequence

/-!
# Transitions of a draft

`Draft.Step` lists what an accepted declaration does to a draft, with the checks
that it passed; `step_eq_ok_iff` says that these are exactly the accepted
declarations.  Invariants of bars under construction go by cases on it, or, where
only the events of the bar matter, on `Step.exists_added`: a declaration other
than a note list adds at most a message at the start of the bar.
-/

namespace MidiScore

/-- A check lets what follows it happen exactly for the legal numbers. -/
theorem Quantity.check_bind_eq_ok_iff {α : Type} {quantity : Quantity} {value : Int}
    {rest : Except Error α} {result : α} :
    (quantity.check value >>= fun _ => rest) = .ok result ↔
      quantity.admits value = true ∧ rest = .ok result := by
  rw [Quantity.check]
  split <;> simp [bind, Except.bind, *]

theorem Quantity.check_bind_eq_error_iff {α : Type} {quantity : Quantity} {value : Int}
    {rest : Except Error α} {error : Error} :
    (quantity.check value >>= fun _ => rest) = .error error ↔
      (quantity.admits value = false ∧ error = .outOfRange quantity value) ∨
        quantity.admits value = true ∧ rest = .error error := by
  rw [Quantity.check]
  split <;> simp [bind, Except.bind, eq_comm, *]

/-- The longest bar has 255 whole notes. -/
theorem Bar.capacity_lt (bar : Bar) : bar.capacity < 4294967296 := by
  have beats : bar.meter.numerator.toNat ≤ 255 := Nat.le_of_lt_succ bar.meter.numerator.toNat_lt
  have beat : ticksPerWhole / bar.meter.denominator.toNat ≤ 3840 := Nat.div_le_self _ _
  exact Nat.lt_of_le_of_lt (Nat.mul_le_mul beats beat) (by decide)

/-- An event at the start of its bar that takes no time. -/
def Event.IsInstant (event : Event) : Prop :=
  event.position = 0 ∧ event.duration = 0

namespace Draft

/-- What each accepted declaration makes of a draft. -/
inductive Step (keys : KeyMap) (draft : Draft) : Declaration → Draft → Prop where
  | tempo (bpm : UInt16) (legal : Quantity.tempo.admits bpm.toNat) :
      Step keys draft (.tempo bpm) (draft.push (.tempo bpm))
  | timeSignature (meter : Meter) (valid : meter.isValid) :
      Step keys draft (.timeSignature meter)
        { draft with bar.meter := meter, scope.meter := meter }
  | velocity (value : UInt8) (legal : Quantity.velocity.admits value.toNat) :
      Step keys draft (.velocity value) { draft with scope.velocity := value }
  | channel (number : UInt8) (legal : Quantity.channel.admits number.toNat) :
      Step keys draft (.channel number) { draft with scope.channel := number }
  | program (number : UInt8) (legal : Quantity.program.admits number.toNat) :
      Step keys draft (.program number)
        (draft.push (.voice draft.scope.channel (.programChange number)))
  | control (number value : UInt8) (legal : Quantity.control.admits number.toNat)
      (legalValue : Quantity.controlValue.admits value.toNat) :
      Step keys draft (.control number value)
        (draft.push (.voice draft.scope.channel (.controlChange number value)))
  | start : Step keys draft .start (draft.push .start)
  | stop : Step keys draft .stop (draft.push .stop)
  | key (name : String) (scale : Scale) (known : Scale.ofName? name = some scale) :
      Step keys draft (.key name)
        { draft.push (.keySignature draft.scope.channel scale) with
          signatures := (draft.scope.channel, scale) :: draft.signatures }
  | text (content : String) : Step keys draft (.text content) (draft.push (.text content))
  | notes (list : List Note) (events : List Event)
      (sequenced : Note.Sequence keys (draft.signatures.scale draft.scope.channel) draft.scope 0
        list events)
      (fits : Note.totalLength list ≤ draft.bar.capacity) :
      Step keys draft (.notes list)
        { draft with
          bar.events := draft.bar.events ++ events
          advanced := draft.advanced || !list.isEmpty }

theorem addNotes_eq_ok_iff {keys : KeyMap} {draft next : Draft} {list : List Note} :
    draft.addNotes keys list = .ok next ↔
      ∃ events, Note.Sequence keys (draft.signatures.scale draft.scope.channel) draft.scope 0
          list events ∧
        Note.totalLength list ≤ draft.bar.capacity ∧
        next = { draft with
          bar.events := draft.bar.events ++ events
          advanced := draft.advanced || !list.isEmpty } := by
  simp only [addNotes, bind_eq_ok_iff, Prod.exists, Note.sequenceEvents_eq_ok_iff]
  have fresh : (0 : UInt32).toNat = 0 := rfl
  simp only [fresh, Nat.zero_add]
  constructor
  · rintro ⟨events, cursor, ⟨derived, reached⟩, checked⟩
    by_cases tooLong : draft.bar.capacity < cursor.toNat
    · simp [tooLong, throw, throwThe, MonadExceptOf.throw, bind, Except.bind] at checked
    · simp only [tooLong, if_false, pure, Except.pure, Except.ok.injEq] at checked
      rw [← Note.decide_cursor_pos reached]
      exact ⟨events, derived, reached ▸ Nat.not_lt.mp tooLong, checked.symm⟩
  · rintro ⟨events, derived, fits, rfl⟩
    -- what fits a bar fits a word
    rcases exists_word? (Nat.lt_of_le_of_lt fits draft.bar.capacity_lt) with ⟨cursor, -, reached⟩
    refine ⟨events, cursor, ⟨derived, reached⟩, ?_⟩
    rw [← reached] at fits
    simp only [Nat.not_lt.mpr fits, if_false, pure, Except.pure, Note.decide_cursor_pos reached]

/-- A draft accepts exactly the declarations that `Step` lists. -/
theorem step_eq_ok_iff {keys : KeyMap} {draft next : Draft} {declaration : Declaration} :
    draft.step keys declaration = .ok next ↔ Step keys draft declaration next := by
  constructor
  · intro accepted
    cases declaration with
    | assign note key => contradiction
    | defineBar name body => contradiction
    | play name => contradiction
    | tempo bpm =>
        rcases Quantity.check_bind_eq_ok_iff.mp accepted with ⟨legal, pushed⟩
        cases pushed
        exact .tempo bpm legal
    | timeSignature meter =>
        rw [step] at accepted
        split at accepted
        · cases accepted
          exact .timeSignature meter ‹_›
        · contradiction
    | velocity value =>
        rcases Quantity.check_bind_eq_ok_iff.mp accepted with ⟨legal, set⟩
        cases set
        exact .velocity value legal
    | channel number =>
        rcases Quantity.check_bind_eq_ok_iff.mp accepted with ⟨legal, set⟩
        cases set
        exact .channel number legal
    | program number =>
        rcases Quantity.check_bind_eq_ok_iff.mp accepted with ⟨legal, pushed⟩
        cases pushed
        exact .program number legal
    | control number value =>
        rcases Quantity.check_bind_eq_ok_iff.mp accepted with ⟨legal, rest⟩
        rcases Quantity.check_bind_eq_ok_iff.mp rest with ⟨legalValue, pushed⟩
        cases pushed
        exact .control number value legal legalValue
    | start =>
        cases accepted
        exact .start
    | stop =>
        cases accepted
        exact .stop
    | key name =>
        rw [step] at accepted
        split at accepted
        · contradiction
        · cases accepted
          exact .key name _ ‹_›
    | text content =>
        cases accepted
        exact .text content
    | notes list =>
        rcases addNotes_eq_ok_iff.mp accepted with ⟨events, sequenced, fits, rfl⟩
        exact .notes list events sequenced fits
  · intro listed
    cases listed with
    | tempo bpm legal => exact Quantity.check_bind_eq_ok_iff.mpr ⟨legal, rfl⟩
    | timeSignature meter valid => simp [step, valid]
    | velocity value legal => exact Quantity.check_bind_eq_ok_iff.mpr ⟨legal, rfl⟩
    | channel number legal => exact Quantity.check_bind_eq_ok_iff.mpr ⟨legal, rfl⟩
    | program number legal => exact Quantity.check_bind_eq_ok_iff.mpr ⟨legal, rfl⟩
    | control number value legal legalValue =>
        exact Quantity.check_bind_eq_ok_iff.mpr
          ⟨legal, Quantity.check_bind_eq_ok_iff.mpr ⟨legalValue, rfl⟩⟩
    | start => rfl
    | stop => rfl
    | key name scale known => simp [step, known]
    | text content => rfl
    | notes list events sequenced fits =>
        exact addNotes_eq_ok_iff.mpr ⟨events, sequenced, fits, rfl⟩

/-- Every declaration appends to the events of the bar, and only a note list appends
events that are not instant. -/
theorem Step.exists_added {keys : KeyMap} {draft next : Draft} {declaration : Declaration}
    (step : Step keys draft declaration next) :
    ∃ added, next.bar.events = draft.bar.events ++ added ∧
      ((∀ event ∈ added, event.IsInstant) ∧ (∀ list, declaration ≠ .notes list) ∨
        ∃ list, declaration = .notes list ∧
          Note.Sequence keys (draft.signatures.scale draft.scope.channel) draft.scope 0 list added ∧
          Note.totalLength list ≤ draft.bar.capacity) := by
  have instant (message : Message) (channel : UInt8) :
      ∀ event ∈ [(⟨message, 0, 0, channel⟩ : Event)], event.IsInstant := by
    simp [Event.IsInstant]
  cases step with
  | timeSignature | velocity | channel => exact ⟨[], by simp⟩
  | tempo | program | control | start | stop | key | text =>
      exact ⟨_, rfl, .inl ⟨instant _ _, nofun⟩⟩
  | notes list events sequenced fits =>
      exact ⟨events, rfl, .inr ⟨list, rfl, sequenced, fits⟩⟩

/-- What holds of instant events and of those of notes stays true of all events. -/
theorem Step.forall_event {Good : Event → Prop} {keys : KeyMap} {draft next : Draft}
    {declaration : Declaration} (step : Step keys draft declaration next)
    (before : ∀ event ∈ draft.bar.events, Good event)
    (instant : ∀ event : Event, event.IsInstant → Good event)
    (sequenced : ∀ {scale scope list events}, Note.Sequence keys scale scope 0 list events →
      ∀ event ∈ events, Good event) : ∀ event ∈ next.bar.events, Good event := by
  rcases step.exists_added with ⟨added, events_eq, ⟨atOnce, _⟩ | ⟨_, _, derived, _⟩⟩
  · rw [events_eq]
    exact List.forall_mem_append.mpr
      ⟨before, fun event member => instant event (atOnce event member)⟩
  · rw [events_eq]
    exact List.forall_mem_append.mpr ⟨before, sequenced derived⟩

/-! ## Runs -/

theorem steps_cons_eq_ok_iff {keys : KeyMap} {draft final : Draft} {declaration : Declaration}
    {rest : List Declaration} :
    draft.steps keys (declaration :: rest) = .ok final ↔
      ∃ next, Step keys draft declaration next ∧ next.steps keys rest = .ok final := by
  simp only [steps, bind_eq_ok_iff, step_eq_ok_iff]

theorem steps_singleton {keys : KeyMap} {draft : Draft} {declaration : Declaration} :
    draft.steps keys [declaration] = draft.step keys declaration := by
  rw [steps]
  cases draft.step keys declaration <;> rfl

/-- What every step preserves holds at the end of a run. -/
theorem steps_invariant {keys : KeyMap} {Holds : Draft → Prop}
    (preserved : ∀ {draft next declaration},
      Holds draft → Step keys draft declaration next → Holds next)
    {draft final : Draft} {body : List Declaration} (start : Holds draft)
    (run : draft.steps keys body = .ok final) : Holds final := by
  induction body generalizing draft with
  | nil =>
      cases run
      exact start
  | cons declaration rest ih =>
      rcases steps_cons_eq_ok_iff.mp run with ⟨next, step, run⟩
      exact ih (preserved start step) run

end Draft

end MidiScore
