import MidiScore.Proofs.Flush.Groups

/-!
# Keys released before they are struck again

A bar releases first if no event strikes a key that a later event of the same position
releases: such a release belongs to an earlier note and would cut the new one.  The notes of
one list always release first, and so does a body with a single note list.  Where a body
has several lists, the order in which they are written decides.
-/

namespace MidiScore

namespace Message

/-- Whether the message strikes a key. -/
def isStrike : Message → Bool
  | .voice _ (.noteOn _ _) => true
  | _ => false

/-- Whether the message releases a key. -/
def isRelease : Message → Bool
  | .voice _ (.noteOff _) => true
  | _ => false

/-- Whether the first message strikes the key that the second one releases. -/
def isCutBy : Message → Message → Bool
  | .voice channel (.noteOn key _), .voice other (.noteOff released) =>
      channel == other && key == released
  | _, _ => false

theorem isCutBy_eq_false_of_isStrike {first : Message} (second : Message)
    (other : first.isStrike = false) : first.isCutBy second = false := by
  unfold isStrike at other
  unfold isCutBy
  split at other
  · contradiction
  · split
    · simp_all
    · rfl

theorem isCutBy_eq_false_of_isRelease (first : Message) {second : Message}
    (other : second.isRelease = false) : first.isCutBy second = false := by
  unfold isRelease at other
  unfold isCutBy
  split at other
  · contradiction
  · split
    · simp_all
    · rfl

end Message

/-- The declaration is a note list. -/
def Declaration.isNotes : Declaration → Bool
  | .notes _ => true
  | _ => false

namespace Event

/-- No event strikes a key that a later event of its position releases. -/
def ReleaseFirst (events : List Event) : Prop :=
  events.Pairwise fun first second =>
    first.position = second.position → first.message.isCutBy second.message = false

instance (events : List Event) : Decidable (ReleaseFirst events) :=
  inferInstanceAs (Decidable (events.Pairwise _))

theorem releaseFirst_cons {event : Event} {rest : List Event} :
    ReleaseFirst (event :: rest) ↔
      (∀ later ∈ rest, event.position = later.position →
        event.message.isCutBy later.message = false) ∧ ReleaseFirst rest :=
  List.pairwise_cons

/-- No event strikes a key. -/
def Still (events : List Event) : Prop :=
  ∀ event ∈ events, event.message.isStrike = false

theorem releaseFirst_append_of_still {first second : List Event} (still : Still first) :
    ReleaseFirst (first ++ second) ↔ ReleaseFirst second := by
  have uncut (events : List Event) : ∀ struck ∈ first, ∀ event ∈ events,
      struck.position = event.position → struck.message.isCutBy event.message = false :=
    fun struck member event _ _ => Message.isCutBy_eq_false_of_isStrike _ (still struck member)
  rw [ReleaseFirst, List.pairwise_append]
  constructor
  · exact fun ⟨_, later, _⟩ => later
  · exact fun later => ⟨List.pairwise_of_forall_mem_list (uncut first), later, uncut second⟩

theorem Still.releaseFirst {events : List Event} (still : Still events) :
    ReleaseFirst events := by
  have extended : ReleaseFirst (events ++ []) := (releaseFirst_append_of_still still).mpr .nil
  rwa [List.append_nil] at extended

theorem ReleaseFirst.append_of_no_release {first second : List Event}
    (releaseFirst : ReleaseFirst first)
    (held : ∀ event ∈ second, event.message.isRelease = false) :
    ReleaseFirst (first ++ second) := by
  have uncut (events : List Event) : ∀ struck ∈ events, ∀ event ∈ second,
      struck.position = event.position → struck.message.isCutBy event.message = false :=
    fun struck _ event member _ => Message.isCutBy_eq_false_of_isRelease _ (held event member)
  exact List.pairwise_append.mpr
    ⟨releaseFirst, List.pairwise_of_forall_mem_list (uncut second), uncut first⟩

end Event

/-- Every strike in the bar lasts. -/
def Bar.StrikesLast (bar : Bar) : Prop :=
  ∀ event ∈ bar.events, event.message.isStrike = true → 0 < event.duration

namespace Note

section

variable {keys : KeyMap} {scale : Scale} {scope : Scope} {position : Nat} {notes : List Note}
  {events : List Event}

/-- Every strike of a note list lasts, and every release comes after the first note. -/
theorem Sequence.strike_release (derived : Sequence keys scale scope position notes events) :
    ∀ event ∈ events, (event.message.isStrike = true → 0 < event.duration) ∧
      (event.message.isRelease = true → position < event.position) := by
  induction derived with
  | nil position => simp
  | rest _ _ ih =>
      intro event member
      rcases ih event member with ⟨lasts, after⟩
      exact ⟨lasts, fun released => Nat.lt_of_le_of_lt (Nat.le_add_right _ _) (after released)⟩
  | @note position note _ _ _ _ _ _ _ _ ih =>
      intro event member
      have positive := note.soundingLength_pos
      rcases List.mem_append.mp member with here | later
      · rcases mem_events.mp here with rfl | ⟨_, rfl⟩
        · exact ⟨fun _ => positive, nofun⟩
        · exact ⟨nofun, fun _ => Nat.lt_add_of_pos_right positive⟩
      · rcases ih event later with ⟨lasts, after⟩
        exact ⟨lasts, fun released => Nat.lt_of_le_of_lt (Nat.le_add_right _ _) (after released)⟩

/-- The notes of one list release first. -/
theorem Sequence.releaseFirst (derived : Sequence keys scale scope position notes events) :
    Event.ReleaseFirst events := by
  induction derived with
  | nil position => exact .nil
  | rest _ _ ih => exact ih
  | @note position note _ later key velocity sounding resolved dynamic derived ih =>
      -- the strike stands at `position`, and all releases from here on come after it
      have all := (Sequence.note sounding resolved dynamic derived).strike_release
      have uncut : ∀ event ∈ note.events key velocity scope.channel position ++ later,
          position = event.position →
          (Message.voice scope.channel (.noteOn key velocity)).isCutBy event.message = false := by
        intro event member same
        cases released : event.message.isRelease with
        | false => exact Message.isCutBy_eq_false_of_isRelease _ released
        | true => exact absurd same (Nat.ne_of_lt ((all event member).2 released))
      cases rings : note.ringsOut with
      | true =>
          simp only [Note.events, rings, if_true, List.cons_append, List.nil_append] at uncut ⊢
          exact Event.releaseFirst_cons.mpr ⟨(List.forall_mem_cons.mp uncut).2, ih⟩
      | false =>
          simp only [Note.events, rings, Bool.false_eq_true, if_false, List.cons_append,
            List.nil_append] at uncut ⊢
          exact Event.releaseFirst_cons.mpr ⟨(List.forall_mem_cons.mp uncut).2,
            Event.releaseFirst_cons.mpr
              ⟨fun _ _ _ => Message.isCutBy_eq_false_of_isStrike _ rfl, ih⟩⟩

end

end Note

namespace Draft

/-- A declaration that is no note list appends neither strikes nor releases. -/
theorem Step.exists_added_of_isNotes {keys : KeyMap} {draft next : Draft}
    {declaration : Declaration} (step : Step keys draft declaration next)
    (other : declaration.isNotes = false) :
    ∃ added, next.bar.events = draft.bar.events ++ added ∧ Event.Still added ∧
      ∀ event ∈ added, event.message.isRelease = false := by
  cases step with
  | timeSignature | velocity | channel => exact ⟨[], by simp [Event.Still]⟩
  | tempo | program | control | start | stop | key | text =>
      exact ⟨_, rfl, List.forall_mem_singleton.mpr rfl, List.forall_mem_singleton.mpr rfl⟩
  | notes => contradiction

theorem Step.exists_sequence_of_isNotes {keys : KeyMap} {draft next : Draft}
    {declaration : Declaration} (step : Step keys draft declaration next)
    (isNotes : declaration.isNotes = true) :
    ∃ list added, next.bar.events = draft.bar.events ++ added ∧
      Note.Sequence keys (draft.signatures.scale draft.scope.channel) draft.scope 0 list
        added := by
  cases step with
  | notes list events sequenced fits => exact ⟨list, events, rfl, sequenced⟩
  | _ => contradiction

theorem Step.strikesLast {keys : KeyMap} {draft next : Draft} {declaration : Declaration}
    (last : draft.bar.StrikesLast) (step : Step keys draft declaration next) :
    next.bar.StrikesLast := by
  cases isNotes : declaration.isNotes with
  | false =>
      rcases step.exists_added_of_isNotes isNotes with ⟨added, events_eq, still, _⟩
      rw [Bar.StrikesLast, events_eq]
      refine List.forall_mem_append.mpr ⟨last, fun event member strikes => ?_⟩
      rw [still event member] at strikes
      contradiction
  | true =>
      rcases step.exists_sequence_of_isNotes isNotes with ⟨list, added, events_eq, derived⟩
      rw [Bar.StrikesLast, events_eq]
      exact List.forall_mem_append.mpr
        ⟨last, fun event member => (derived.strike_release event member).1⟩

theorem strikesLast_of_steps {context : Context} {body : List Declaration} {draft : Draft}
    (run : (Draft.start context.scope context.signatures).steps context.keys body = .ok draft) :
    draft.bar.StrikesLast := by
  have empty : (Draft.start context.scope context.signatures).bar.StrikesLast := by
    simp [Bar.StrikesLast, Draft.start]
  exact steps_invariant Step.strikesLast empty run

/-- A body releases first if nothing is struck before its only note list. -/
theorem releaseFirst_of_steps {keys : KeyMap} {draft final : Draft} {body : List Declaration}
    (run : draft.steps keys body = .ok final) (releaseFirst : Event.ReleaseFirst draft.bar.events)
    (few : body.countP (·.isNotes) = 0 ∨
      body.countP (·.isNotes) ≤ 1 ∧ Event.Still draft.bar.events) :
    Event.ReleaseFirst final.bar.events := by
  induction body generalizing draft with
  | nil =>
      cases run
      exact releaseFirst
  | cons declaration rest ih =>
      rcases steps_cons_eq_ok_iff.mp run with ⟨next, step, run⟩
      cases isNotes : declaration.isNotes with
      | false =>
          rcases step.exists_added_of_isNotes isNotes with ⟨added, events_eq, still, held⟩
          simp only [List.countP_cons, isNotes, Bool.false_eq_true, if_false, Nat.add_zero] at few
          apply ih run
          · rw [events_eq]
            exact releaseFirst.append_of_no_release held
          · apply few.imp_right
            rintro ⟨atMostOne, stillBefore⟩
            rw [events_eq]
            exact ⟨atMostOne, List.forall_mem_append.mpr ⟨stillBefore, still⟩⟩
      | true =>
          rcases step.exists_sequence_of_isNotes isNotes with ⟨list, added, events_eq, derived⟩
          simp only [List.countP_cons, isNotes, if_true] at few
          rcases few with none | ⟨atMostOne, still⟩
          · contradiction
          · apply ih run
            · rw [events_eq, Event.releaseFirst_append_of_still still]
              exact derived.releaseFirst
            · exact .inl (by omega)

end Draft

/-- A body with at most one note list builds a bar that releases first. -/
theorem Context.Builds.releaseFirst {context : Context} {body : List Declaration} {bar : Bar}
    (built : context.Builds body bar) (few : body.countP (·.isNotes) ≤ 1) :
    Event.ReleaseFirst bar.events := by
  rcases built with ⟨draft, run, finished⟩
  rw [Draft.bar_eq_of_finish finished]
  exact Draft.releaseFirst_of_steps run .nil (.inr ⟨few, by simp [Event.Still, Draft.start]⟩)

/-- All strikes that wait in a session last. -/
theorem Session.Reachable.strikesLast {config : Config}
    {definitions : List (String × List Declaration)} {session : Session}
    (reached : Reachable config definitions session) :
    ∀ bar ∈ session.buffer, bar.StrikesLast :=
  reached.forall_bar Draft.strikesLast_of_steps

end MidiScore
