import MidiScore.Proofs.Config.Accepted
import MidiScore.Proofs.Flush.Duration
import MidiScore.Proofs.Message.Wire
import MidiScore.Proofs.Note.Resolution

/-!
# Numbers of a session stay within their MIDI ranges

The checks of a session are made where a number comes in: by each declaration, for the
key that a note sounds, and by the bounds on loudness.  `InRange` says of the bars
themselves that no number outgrows its place in a message.  One declaration preserves
it, hence every run does, and the wire bytes of such bars lose nothing.
-/

namespace MidiScore

/-- The numbers of the action fit data bytes. -/
def Voice.InRange : Voice → Prop
  | .noteOn key velocity => key.toNat ≤ 127 ∧ velocity.toNat ≤ 127
  | .noteOff key => key.toNat ≤ 127
  | .programChange program => program.toNat ≤ 127
  | .controlChange control value => control.toNat ≤ 127 ∧ value.toNat ≤ 127

/-- The numbers of the message are in range, and its channel, if it has one, is the one
given. -/
def Message.InRange (channel : UInt8) : Message → Prop
  | .voice own action => own = channel ∧ action.InRange
  | .tempo bpm => 1 ≤ bpm.toNat
  | .keySignature own scale =>
      own = channel ∧ -6 ≤ scale.fifths.toInt ∧ scale.fifths.toInt ≤ 6
  | .start | .stop | .text _ => True

/-- The channel of the event exists, and its message is in range on it. -/
structure Event.InRange (event : Event) : Prop where
  channel : event.channel.toNat ≤ 15
  message : event.message.InRange event.channel

/-- The bar has 1 to 128 beats of a power of two from 1 to 128, and its events are in
range. -/
structure Bar.InRange (bar : Bar) : Prop where
  numerator : 1 ≤ bar.meter.numerator.toNat ∧ bar.meter.numerator.toNat ≤ 128
  denominator : ∃ power ≤ 7, bar.meter.denominator.toNat = 2 ^ power
  events : ∀ event ∈ bar.events, event.InRange

/-- The messages of bars that go to an output port, in order. -/
def Bar.playable (bars : List Bar) : List Message :=
  ((bars.flatMap (·.events)).map (·.message)).filter (·.isPlayable)

/-! ## Where numbers come in -/

theorem Scale.fifths_of_ofName? {name : String} {scale : Scale}
    (known : ofName? name = some scale) :
    -6 ≤ scale.fifths.toInt ∧ scale.fifths.toInt ≤ 6 := by
  rcases Option.map_eq_some_iff.mp known with ⟨entry, found, rfl⟩
  have member := List.mem_of_find?_eq_some found
  have all : ∀ entry ∈ table,
      -6 ≤ entry.2.2.fifths.toInt ∧ entry.2.2.fifths.toInt ≤ 6 := by decide
  exact all entry member

theorem Meter.denominator_of_isValid {meter : Meter} (valid : meter.isValid = true) :
    ∃ power ≤ 7, meter.denominator.toNat = 2 ^ power :=
  (isValid_iff.mp valid).2.2

theorem Meter.numerator_of_isValid {meter : Meter} (valid : meter.isValid = true) :
    1 ≤ meter.numerator.toNat ∧ meter.numerator.toNat ≤ 128 :=
  (isValid_iff.mp valid).imp_right And.left

namespace Note

/-- The key that a note sounds is checked after accidentals and the scale. -/
theorem resolve_le {note : Note} {keys : KeyMap} {scale : Scale} {channel key : UInt8}
    (resolved : note.resolve keys scale channel = .ok key) : key.toNat ≤ 127 := by
  rw [resolve] at resolved
  split at resolved
  · contradiction
  · split at resolved
    · contradiction
    · rcases Quantity.check_bind_eq_ok_iff.mp resolved with ⟨legal, sounds⟩
      cases sounds
      have bounded : scale.apply _ note ≤ 127 := (Quantity.admits_iff.mp legal).2
      simp only [Nat.toUInt8, UInt8.toNat_ofNat']
      omega

theorem Sequence.inRange {keys : KeyMap} {scale : Scale} {scope : Scope} {position : Nat}
    {notes : List Note} {events : List Event} (channel : scope.channel.toNat ≤ 15)
    (derived : Sequence keys scale scope position notes events) :
    ∀ event ∈ events, event.InRange := by
  induction derived with
  | nil position => simp
  | rest _ _ ih => exact ih
  | @note _ note _ _ key velocity _ resolved dynamic _ ih =>
      refine List.forall_mem_append.mpr ⟨fun event member => ?_, ih⟩
      rcases mem_events.mp member with rfl | ⟨_, rfl⟩
      · rw [eq_velocity_of_velocity? dynamic]
        exact ⟨channel, rfl, resolve_le resolved, note.velocity_le scope.velocity⟩
      · exact ⟨channel, rfl, resolve_le resolved⟩

end Note

/-! ## Declarations and runs -/

namespace Draft

/-- The channel in force exists, and the events of the bar are in range. -/
structure InRange (draft : Draft) : Prop where
  channel : draft.scope.channel.toNat ≤ 15
  events : ∀ event ∈ draft.bar.events, event.InRange

theorem InRange.push {draft : Draft} (inRange : draft.InRange) {message : Message}
    (legal : message.InRange draft.scope.channel) : (draft.push message).InRange where
  channel := inRange.channel
  events := List.forall_mem_append.mpr
    ⟨inRange.events, List.forall_mem_singleton.mpr ⟨inRange.channel, legal⟩⟩

theorem Step.inRange {keys : KeyMap} {draft next : Draft} {declaration : Declaration}
    (inRange : draft.InRange) (step : Step keys draft declaration next) : next.InRange := by
  cases step with
  | tempo bpm legal =>
      apply inRange.push
      exact Int.ofNat_le.mp (Quantity.admits_iff.mp legal).1
  | timeSignature | velocity => exact ⟨inRange.channel, inRange.events⟩
  | channel number legal => exact ⟨(Quantity.admits_natCast_iff rfl rfl).mp legal, inRange.events⟩
  | program number legal =>
      exact inRange.push ⟨rfl, (Quantity.admits_natCast_iff rfl rfl).mp legal⟩
  | control number value legal legalValue =>
      exact inRange.push ⟨rfl, (Quantity.admits_natCast_iff rfl rfl).mp legal,
        (Quantity.admits_natCast_iff rfl rfl).mp legalValue⟩
  | start | stop | text => exact inRange.push trivial
  | key name scale known =>
      have pushed : (draft.push (.keySignature draft.scope.channel scale)).InRange :=
        inRange.push ⟨rfl, Scale.fifths_of_ofName? known⟩
      exact ⟨pushed.channel, pushed.events⟩
  | notes list events derived fits =>
      exact ⟨inRange.channel,
        List.forall_mem_append.mpr ⟨inRange.events, derived.inRange inRange.channel⟩⟩

/-- From a valid meter and a channel that exists, a body builds bars in range and leaves
such a meter and such a channel. -/
theorem inRange_of_steps {context : Context} {body : List Declaration} {draft : Draft}
    (start : context.scope.channel.toNat ≤ 15 ∧ context.scope.meter.isValid = true)
    (run : (Draft.start context.scope context.signatures).steps context.keys body = .ok draft) :
    (draft.scope.channel.toNat ≤ 15 ∧ draft.scope.meter.isValid = true) ∧ draft.bar.InRange := by
  have empty : (Draft.start context.scope context.signatures).InRange :=
    ⟨start.1, by simp [Draft.start]⟩
  have inRange := steps_invariant Step.inRange empty run
  have meters := steps_invariant Step.meter_isValid ⟨start.2, start.2⟩ run
  exact ⟨⟨inRange.channel, meters.1⟩, Meter.numerator_of_isValid meters.2,
    Meter.denominator_of_isValid meters.2, inRange.events⟩

end Draft

namespace Bar.InRange

theorem isMeasurable {bar : Bar} (inRange : bar.InRange) : bar.meter.isMeasurable = true := by
  rcases inRange.denominator with ⟨power, _, denominator_eq⟩
  have positive := Nat.two_pow_pos power
  rw [Meter.isMeasurable, bne_iff_ne]
  rintro zero
  rw [← denominator_eq, zero] at positive
  contradiction

theorem capacity?_eq {bar : Bar} (inRange : bar.InRange) : bar.capacity? = some bar.capacity :=
  if_pos inRange.isMeasurable

theorem tempo_pos {bar : Bar} (inRange : bar.InRange) :
    ∀ event ∈ bar.events, ∀ bpm, event.message = .tempo bpm → 0 < bpm.toNat := by
  intro event member bpm said
  have legal := (inRange.events event member).message
  rwa [said] at legal

theorem reduce_eq {bar : Bar} (inRange : bar.InRange) :
    ∀ event ∈ bar.events, event.message.reduce = event.message := by
  intro event member
  rcases inRange.events event member with ⟨channel, message⟩
  cases said : event.message with
  | voice own action =>
      rw [said] at message
      rcases message with ⟨rfl, small⟩
      rw [Message.reduce, Voice.channelNibble_of_le channel]
      cases action with
      | noteOn | controlChange =>
          rw [Voice.reduce, Voice.dataByte_of_le small.1, Voice.dataByte_of_le small.2]
      | noteOff | programChange => rw [Voice.reduce, Voice.dataByte_of_le small]
  | _ => rfl

/-- The wire bytes of bars in range are read back as the messages of the bars. -/
theorem decode_wire {bars : List Bar} (inRange : ∀ bar ∈ bars, bar.InRange) :
    Message.decode (Message.wire ((bars.flatMap (·.events)).map (·.message))) =
      some (playable bars) := by
  have kept : ∀ message ∈ playable bars, message.reduce = message := by
    intro message member
    rcases List.mem_map.mp (List.mem_filter.mp member).1 with ⟨event, inBars, rfl⟩
    rcases List.mem_flatMap.mp inBars with ⟨bar, isBar, inBar⟩
    exact (inRange bar isBar).reduce_eq event inBar
  rw [Message.decode_wire, ← playable, List.map_congr_left kept, List.map_id']

end Bar.InRange

namespace Session.Reachable

variable {config : Config} {definitions : List (String × List Declaration)} {session : Session}

theorem inRange (accepted : config.IsAccepted) (reached : Reachable config definitions session) :
    (∀ name bar, session.context.bar? name = some bar → bar.InRange) ∧
      ∀ bar ∈ session.buffer, bar.InRange := by
  have invariant := Invariant.ofBuilt
    (fun scope => scope.channel.toNat ≤ 15 ∧ scope.meter.isValid = true) Bar.InRange
    Draft.inRange_of_steps
  rcases invariant.reachable
    ⟨⟨by simp [ofConfig], accepted.meter_isValid⟩, by simp [ofConfig, Context.bar?]⟩
    reached with ⟨⟨_, named⟩, waits⟩
  exact ⟨named, waits⟩

theorem inRange_of_mem_flush (accepted : config.IsAccepted)
    (reached : Reachable config definitions session) :
    ∀ bar ∈ session.flush.1, bar.InRange := by
  have waits := (reached.inRange accepted).2
  intro bar member
  rcases Bar.exists_meter_of_mem_settle member with ⟨waited, inBuffer, meter_eq⟩
  exact ⟨meter_eq ▸ (waits waited inBuffer).numerator,
    meter_eq ▸ (waits waited inBuffer).denominator,
    reached.forall_event_of_mem_flush (fun other isOther => (waits other isOther).events)
      bar member⟩

end Session.Reachable

namespace Session

/-- The bar has a name in the session, waits in it, or is returned by a flush of it. -/
def Holds (session : Session) (bar : Bar) : Prop :=
  (∃ name, session.context.bar? name = some bar) ∨ bar ∈ session.buffer ∨
    bar ∈ session.flush.1

/-- From accepted settings, every bar of a session is in range and so has a capacity.  What
an output port receives for bars that flushes returned is read back as their messages. -/
theorem inRange_and_wire_lossless {config : Config} (accepted : config.IsAccepted) :
    (∀ definitions session, Reachable config definitions session →
      ∀ bar, session.Holds bar → bar.InRange ∧ bar.capacity? = some bar.capacity) ∧
    ∀ bars : List Bar,
      (∀ bar ∈ bars, ∃ definitions session,
        Reachable config definitions session ∧ bar ∈ session.flush.1) →
      Message.decode (Message.wire ((bars.flatMap (·.events)).map (·.message))) =
        some (Bar.playable bars) := by
  constructor
  · intro definitions session reached bar holds
    have inRange : bar.InRange := by
      rcases holds with ⟨name, named⟩ | waits | returned
      · exact (reached.inRange accepted).1 name bar named
      · exact (reached.inRange accepted).2 bar waits
      · exact reached.inRange_of_mem_flush accepted bar returned
    exact ⟨inRange, inRange.capacity?_eq⟩
  · intro bars returned
    apply Bar.InRange.decode_wire
    intro bar member
    rcases returned bar member with ⟨definitions, session, reached, inFlush⟩
    exact reached.inRange_of_mem_flush accepted bar inFlush

/-- A device is started and a tempo set in front of the highest and loudest note of the
last channel.  The tempo does not reach the port. -/
theorem inRange_and_wire_lossless_loud_note :
    let score : List Declaration :=
      [.channel 15, .velocity 127, .assign 'g' 127, .start, .tempo 60, .notes [.plain 'g']]
    let bar : Bar := ⟨.common, [⟨.start, 0, 0, 15⟩, ⟨.tempo 60, 0, 0, 15⟩,
      ⟨.voice 15 (.noteOn 127 127), 0, 960, 15⟩, ⟨.voice 15 (.noteOff 127), 960, 0, 15⟩]⟩
    Config.standard.IsAccepted ∧
      ((ofConfig .standard).evaluate score).1.flush.1 = [bar] ∧
      bar.InRange ∧ bar.capacity? = some bar.capacity ∧
      Message.decode [0xFA, 0x9F, 127, 127, 0x8F, 127, 0] =
        some [.start, .voice 15 (.noteOn 127 127), .voice 15 (.noteOff 127)] := by
  intro score bar
  have accepted : Config.standard.IsAccepted := .inl rfl
  have reached := Reachable.evaluate (@Reachable.start .standard) score
  have waits : ((ofConfig .standard).evaluate score).1.buffer =
      [⟨.common, [⟨.start, 0, 0, 15⟩]⟩, ⟨.common, [⟨.tempo 60, 0, 0, 15⟩]⟩,
        ⟨.common, bar.events.drop 2⟩] := by decide +kernel
  have returned : ((ofConfig .standard).evaluate score).1.flush.1 = [bar] := by
    have sorted : bar.events.mergeSort Event.precedes = bar.events :=
      List.mergeSort_of_pairwise (by decide)
    rw [flush, waits]
    exact congrArg (fun events => [(⟨.common, events⟩ : Bar)]) sorted
  have isReturned : bar ∈ ((ofConfig .standard).evaluate score).1.flush.1 := by simp [returned]
  rcases inRange_and_wire_lossless accepted with ⟨held, lossless⟩
  rcases held _ _ reached bar (.inr (.inr isReturned)) with ⟨inRange, capacity⟩
  refine ⟨accepted, returned, inRange, capacity, lossless [bar] ?_⟩
  exact List.forall_mem_singleton.mpr ⟨_, _, reached, isReturned⟩

end Session

end MidiScore
