import MidiScore.Proofs.MidiFile.Reader
import MidiScore.Proofs.Timeline.ClosedForm

/-!
# What stands on the tracks of a file

The conductor track takes the tempo at the start, the meters of bars that change it, and
what the events say of the score; every channel that sounds takes its voice messages.  Both
are written down here from the bars and their timeline, `conducted` and `voiced`, and the
writer is shown to put exactly these on its tracks.
-/

namespace MidiScore

/-- The channel that a message sounds on, four bits of it. -/
def Message.nibble? : Message → Option UInt8
  | .voice channel _ => some (Voice.channelNibble channel)
  | _ => none

namespace MidiFile

/-- The tempo of a file, in whole microseconds. -/
def tempoEvent (bpm : UInt16) : TrackEvent :=
  .description (.tempo (60000000 / bpm.toNat))

/-- What a message says of the score. -/
def scoreEvent? : Message → Option TrackEvent
  | .tempo bpm => some (tempoEvent bpm)
  | .keySignature _ scale => some (.description (.keySignature scale))
  | .text content => some (.description (.text content))
  | .start => some (.escape 0xFA)
  | .stop => some (.escape 0xFC)
  | .voice _ _ => none

/-- The meter of each bar whose predecessor does not have it, at the tick where the bar
starts. -/
def meterEvents (bars : List Bar) : List (Nat × TrackEvent) :=
  bars.zipIdx.filterMap fun (bar, index) =>
    if 0 < index ∧ bars[index - 1]?.map (·.meter) = some bar.meter then none
    else some (Bar.ticksBefore bars index, .description (meterDescription bar.meter))

/-- All that the conductor track says, at its ticks. -/
def conducted (tempo : UInt16) (bars : List Bar) : List (Nat × TrackEvent) :=
  let messages := (Timeline.ofBars tempo bars).filterMap fun event =>
    (scoreEvent? event.message).map (event.tick, ·)
  ((0, tempoEvent tempo) :: (meterEvents bars ++ messages)).mergeSort Track.precedes

/-- The voice messages of a channel, at their ticks and with the bits of their numbers that
fit data bytes. -/
def voiced (tempo : UInt16) (bars : List Bar) (channel : UInt8) : List (Nat × TrackEvent) :=
  (Timeline.ofBars tempo bars).filterMap fun event =>
    match event.message with
    | .voice number action =>
        if Voice.channelNibble number = channel then
          some (event.tick, .voice channel action.reduce)
        else none
    | _ => none

/-- A track of events at ticks in order, closed. -/
def Track.close (timed : List (Nat × TrackEvent)) : Track :=
  deltas 0 timed ++ [(0, .description .endOfTrack)]

/-- The channels that sound in bars, in order. -/
def usedChannels (bars : List Bar) : List UInt8 :=
  ((List.range 16).map (·.toUInt8)).filter fun channel =>
    bars.any fun bar => bar.events.any fun event => event.message.nibble? == some channel

/-! ## The conductor track -/

/-- A tempo that is accepted is not zero, and its microseconds fit. -/
theorem tempoDescription_eq_ok {bpm : UInt16} {content : Description}
    (described : tempoDescription bpm = .ok content) :
    .description content = tempoEvent bpm ∧ content.IsWritable := by
  simp only [tempoDescription] at described
  split at described
  · contradiction
  · rename_i fast
    cases described
    have positive : 1 ≤ bpm.toNat := by
      by_contra zero
      rw [Nat.lt_one_iff.mp (Nat.not_le.mp zero)] at fast
      exact fast (by decide)
    rw [Nat.max_eq_right positive] at fast ⊢
    exact ⟨rfl, Nat.not_lt.mp fast⟩

theorem scoreEvent?_eq {message : Message} {event? : Option TrackEvent}
    (conducts : conductorEvent message = .ok event?) : scoreEvent? message = event? := by
  cases message with
  | tempo bpm =>
      rcases map_eq_ok_iff.mp conducts with ⟨content, described, rfl⟩
      exact congrArg some (tempoDescription_eq_ok described).1.symm
  | _ =>
      cases conducts
      rfl

theorem isWritable_of_conductorEvent {message : Message} {event : TrackEvent}
    (conducts : conductorEvent message = .ok (some event))
    (short : ∀ content, message = .text content →
      (textBytes content).length < 2 ^ quantityBits) : event.IsWritable := by
  cases message with
  | tempo bpm =>
      rcases map_eq_ok_iff.mp conducts with ⟨content, described, same⟩
      cases same
      exact (tempoDescription_eq_ok described).2
  | text content =>
      cases conducts
      exact short content rfl
  | voice => cases conducts
  | start | stop | keySignature =>
      cases conducts
      trivial

theorem conductorEvents_eq_ok {events : List TimedEvent} {messages : List (Nat × TrackEvent)}
    (conducts : conductorEvents events = .ok messages) :
    (∀ event ∈ events, conductorEvent event.message = .ok (scoreEvent? event.message)) ∧
      messages = events.filterMap fun event =>
        (scoreEvent? event.message).map (event.tick, ·) := by
  induction events generalizing messages with
  | nil =>
      cases conducts
      exact ⟨by simp, rfl⟩
  | cons event rest ih =>
      rcases bind_eq_ok_iff.mp conducts with ⟨first, conductsHere, conducts⟩
      rcases bind_eq_ok_iff.mp conducts with ⟨later, conductsLater, joined⟩
      cases joined
      rcases ih conductsLater with ⟨each, later_eq⟩
      rw [List.filterMap_cons, scoreEvent?_eq conductsHere, ← later_eq]
      refine ⟨List.forall_mem_cons.mpr ⟨?_, each⟩, ?_⟩
      · rw [conductsHere, scoreEvent?_eq conductsHere]
      · cases first <;> rfl

/-- The meters of bars from a tick on, where they differ from the bar before. -/
def meterChanges (tick : Nat) (previous : Option Meter) : List Bar → List (Nat × TrackEvent)
  | [] => []
  | bar :: rest =>
      let later := meterChanges (tick + bar.capacity) (some bar.meter) rest
      if previous = some bar.meter then later
      else (tick, .description (meterDescription bar.meter)) :: later

/-- The writer finds these meters as long as words hold the ticks. -/
theorem meterChanges?_eq_some_iff {tick : UInt32} {previous : Option Meter} {bars : List Bar}
    {changes : List (Nat × TrackEvent)} :
    meterChanges? tick previous bars = some changes ↔
      tick.toNat + (bars.map (·.capacity)).sum < 4294967296 ∧
        meterChanges tick.toNat previous bars = changes := by
  induction bars generalizing tick previous changes with
  | nil => simp [meterChanges?, meterChanges, tick.toNat_lt]
  | cons bar rest ih =>
      rw [meterChanges?, meterChanges, List.map_cons, List.sum_cons, ← Nat.add_assoc]
      simp only [bind, Option.bind_eq_some_iff, word?_eq_some_iff, ih, pure]
      constructor
      · rintro ⟨next, moved, _, ⟨fits, rfl⟩, found⟩
        rw [moved] at fits found
        refine ⟨fits, ?_⟩
        split at found <;> rename_i same
        · rw [if_pos same]
          exact Option.some.inj found
        · rw [if_neg same]
          exact Option.some.inj found
      · rintro ⟨fits, rfl⟩
        rcases @exists_word? (tick.toNat + bar.capacity) (by omega) with ⟨next, -, moved⟩
        refine ⟨next, moved, _, ⟨moved ▸ fits, rfl⟩, ?_⟩
        rw [moved]
        split <;> rfl

/-- Where the bars behind some others change the meter. -/
theorem meterChanges_eq (front rest : List Bar) :
    meterChanges (Bar.ticksBefore (front ++ rest) front.length) (front.getLast?.map (·.meter))
        rest =
      (rest.zipIdx front.length).filterMap fun (bar, index) =>
        if 0 < index ∧ (front ++ rest)[index - 1]?.map (·.meter) = some bar.meter then none
        else some (Bar.ticksBefore (front ++ rest) index,
          .description (meterDescription bar.meter)) := by
  induction rest generalizing front with
  | nil => rfl
  | cons bar rest ih =>
      have previous : front.getLast?.map (·.meter) = some bar.meter ↔
          0 < front.length ∧
            (front ++ bar :: rest)[front.length - 1]?.map (·.meter) = some bar.meter := by
        rcases front.eq_nil_or_concat with rfl | ⟨others, last, rfl⟩
        · simp
        · simp
      have later := ih (front ++ [bar])
      have next : Bar.ticksBefore (front ++ bar :: rest) (front.length + 1) =
          Bar.ticksBefore (front ++ bar :: rest) front.length + bar.capacity :=
        Bar.ticksBefore_succ (by simp)
      rw [List.append_assoc, List.singleton_append, List.length_append, List.length_singleton,
        List.getLast?_concat, next] at later
      rw [meterChanges, List.zipIdx_cons, List.filterMap_cons, ← later]
      by_cases same : front.getLast?.map (·.meter) = some bar.meter
      · simp only [if_pos same, if_pos (previous.mp same)]
        rfl
      · simp only [if_neg same, if_neg (mt previous.mpr same)]
        rfl

theorem meterChanges_eq_meterEvents (bars : List Bar) :
    meterChanges 0 none bars = meterEvents bars :=
  meterChanges_eq [] bars

/-- The meters of a song are found exactly if a word holds its end. -/
theorem meterChanges?_start_eq_some_iff {bars : List Bar} {changes : List (Nat × TrackEvent)} :
    meterChanges? 0 none bars = some changes ↔
      (bars.map (·.capacity)).sum < 4294967296 ∧ meterEvents bars = changes := by
  have fromStart : (0 : UInt32).toNat = 0 := rfl
  rw [meterChanges?_eq_some_iff, fromStart, Nat.zero_add, meterChanges_eq_meterEvents]

theorem conductorTrack_eq_ok {tempo : UInt16} {bars : List Bar} {track : Track}
    (written : conductorTrack tempo bars (Timeline.ofBars tempo bars) = .ok track) :
    (tempoEvent tempo).IsWritable ∧
      (∀ event ∈ Timeline.ofBars tempo bars,
        conductorEvent event.message = .ok (scoreEvent? event.message)) ∧
      track = Track.close (conducted tempo bars) := by
  rcases bind_eq_ok_iff.mp written with ⟨initial, described, written⟩
  split at written
  · contradiction
  rename_i meters found
  obtain ⟨-, rfl⟩ := meterChanges?_start_eq_some_iff.mp found
  rcases bind_eq_ok_iff.mp written with ⟨messages, conducts, written⟩
  rcases tempoDescription_eq_ok described with ⟨initial_eq, writable⟩
  rcases conductorEvents_eq_ok conducts with ⟨each, messages_eq⟩
  cases written
  refine ⟨initial_eq ▸ writable, each, ?_⟩
  rw [initial_eq, messages_eq]
  rfl

theorem reduce_of_scoreEvent? {message : Message} {event : TrackEvent}
    (stated : scoreEvent? message = some event) : event.reduce = event := by
  cases message <;> cases stated <;> rfl

theorem exists_of_mem_meterEvents {bars : List Bar} {entry : Nat × TrackEvent}
    (member : entry ∈ meterEvents bars) :
    ∃ index ≤ bars.length, ∃ meter,
      entry = (Bar.ticksBefore bars index, .description (meterDescription meter)) := by
  rcases List.mem_filterMap.mp member with ⟨⟨bar, index⟩, indexed, found⟩
  have within : index < bars.length := List.snd_lt_of_mem_zipIdx indexed
  refine ⟨index, within.le, bar.meter, ?_⟩
  dsimp only at found
  split at found
  · contradiction
  · exact (Option.some.inj found).symm

/-- What is conducted: the first tempo, a meter where a bar starts, or what an event says. -/
theorem mem_conducted {tempo : UInt16} {bars : List Bar} {entry : Nat × TrackEvent}
    (member : entry ∈ conducted tempo bars) :
    entry = (0, tempoEvent tempo) ∨
      (∃ index ≤ bars.length, ∃ meter,
        entry = (Bar.ticksBefore bars index, .description (meterDescription meter))) ∨
      ∃ event ∈ Timeline.ofBars tempo bars,
        entry.1 = event.tick ∧ scoreEvent? event.message = some entry.2 := by
  rcases List.mem_cons.mp (List.mem_mergeSort.mp member) with first | later
  · exact .inl first
  · rcases List.mem_append.mp later with meter | message
    · exact .inr (.inl (exists_of_mem_meterEvents meter))
    · rcases List.mem_filterMap.mp message with ⟨event, inSong, found⟩
      rcases Option.map_eq_some_iff.mp found with ⟨stated, states, rfl⟩
      exact .inr (.inr ⟨event, inSong, rfl, states⟩)

/-- The score says nothing that a file would cut. -/
theorem map_reduce_conducted (tempo : UInt16) (bars : List Bar) :
    ((conducted tempo bars).map fun entry => (entry.1, entry.2.reduce)) =
      conducted tempo bars := by
  have kept : ∀ entry ∈ conducted tempo bars, (entry.1, entry.2.reduce) = entry := by
    intro entry member
    have same : entry.2.reduce = entry.2 := by
      rcases mem_conducted member with rfl | ⟨index, _, meter, rfl⟩ | ⟨event, _, _, states⟩
      · rfl
      · rfl
      · exact reduce_of_scoreEvent? states
    rw [same]
  rw [List.map_congr_left kept, List.map_id']

/-! ## The tracks of channels -/

theorem mem_messages_ofBars {tempo : UInt16} {bars : List Bar} {message : Message} :
    (∃ event ∈ Timeline.ofBars tempo bars, event.message = message) ↔
      ∃ bar ∈ bars, ∃ event ∈ bar.events, event.message = message := by
  have placed := Clock.map_message_placeBars (.start tempo) bars
  have same := congrArg (message ∈ ·) placed
  simp only [List.mem_map, List.mem_flatMap, eq_iff_iff] at same
  simp only [Timeline.ofBars, Timeline.flush, Timeline.add, Timeline.start, List.nil_append,
    List.mem_mergeSort, same]
  constructor
  · rintro ⟨event, ⟨bar, isBar, inBar⟩, holds⟩
    exact ⟨bar, isBar, event, inBar, holds⟩
  · rintro ⟨bar, isBar, event, inBar, holds⟩
    exact ⟨event, ⟨bar, isBar, inBar⟩, holds⟩

theorem channelEvent_eq_some {channel : UInt8} {event : TimedEvent} {entry : Nat × TrackEvent}
    (found : channelEvent channel event = some entry) :
    ∃ action, entry = (event.tick, .voice channel action) ∧
      event.message.nibble? = some channel := by
  rw [channelEvent] at found
  split at found
  · rename_i number action said
    split at found
    · rename_i same
      cases found
      rw [said, Message.nibble?, same]
      exact ⟨action, rfl, rfl⟩
    · contradiction
  · contradiction

theorem pairwise_channelEvents (tempo : UInt16) (bars : List Bar) (channel : UInt8) :
    ((Timeline.ofBars tempo bars).filterMap (channelEvent channel)).Pairwise
      fun first second => first.1 ≤ second.1 := by
  apply (Timeline.pairwise_ofBars tempo bars).filterMap
  intro first second before entry isEntry next isNext
  rcases channelEvent_eq_some isEntry with ⟨_, rfl, _⟩
  rcases channelEvent_eq_some isNext with ⟨_, rfl, _⟩
  exact before

/-- A channel has events exactly if it is used. -/
theorem filterMap_channelEvent_eq_nil_iff {tempo : UInt16} {bars : List Bar} {channel : UInt8} :
    (Timeline.ofBars tempo bars).filterMap (channelEvent channel) = [] ↔
      ∀ bar ∈ bars, ∀ event ∈ bar.events, event.message.nibble? ≠ some channel := by
  rw [List.filterMap_eq_nil_iff]
  constructor
  · intro silent bar isBar event inBar sounds
    rcases mem_messages_ofBars.mpr ⟨bar, isBar, event, inBar, rfl⟩ with ⟨timed, inSong, same⟩
    have none := silent timed inSong
    cases said : event.message with
    | voice number action =>
        rw [said] at same sounds
        simp only [Message.nibble?, Option.some.injEq] at sounds
        simp [channelEvent, same, sounds] at none
    | _ =>
        rw [said] at sounds
        contradiction
  · intro unused event inSong
    cases found : channelEvent channel event with
    | none => rfl
    | some entry =>
        rcases mem_messages_ofBars.mp ⟨event, inSong, rfl⟩ with ⟨bar, isBar, written, inBar, same⟩
        rcases channelEvent_eq_some found with ⟨_, _, sounds⟩
        rw [← same] at sounds
        exact absurd sounds (unused bar isBar written inBar)

/-- Every channel in use has a track, in order, with its voice messages in the order of the
timeline. -/
theorem channelTracks_eq (tempo : UInt16) (bars : List Bar) :
    channelTracks (Timeline.ofBars tempo bars) =
      (usedChannels bars).map fun channel =>
        Track.close ((Timeline.ofBars tempo bars).filterMap (channelEvent channel)) := by
  rw [usedChannels, ← List.filterMap_eq_map', List.filterMap_filter, List.filterMap_map,
    channelTracks]
  apply List.filterMap_congr
  intro channel _
  have used_iff : (bars.any fun bar => bar.events.any fun event =>
      event.message.nibble? == some channel.toUInt8) = true ↔
      (Timeline.ofBars tempo bars).filterMap (channelEvent channel.toUInt8) ≠ [] := by
    rw [Ne, filterMap_channelEvent_eq_nil_iff]
    simp
  have same : Track.ofTicks ((Timeline.ofBars tempo bars).filterMap
        (channelEvent channel.toUInt8)) =
      Track.close ((Timeline.ofBars tempo bars).filterMap (channelEvent channel.toUInt8)) := by
    have sorted := pairwise_channelEvents tempo bars channel.toUInt8
    rw [Track.ofTicks, Track.close, List.mergeSort_of_pairwise]
    exact sorted.imp decide_eq_true
  simp only [Function.comp_apply, used_iff]
  split
  · rename_i silent
    rw [if_neg (by simp [silent])]
  · rename_i sounds
    rw [if_pos (by simpa using sounds), same]

theorem voiced_eq {tempo : UInt16} {bars : List Bar} {channel : UInt8}
    (nibble : Voice.channelNibble channel = channel) :
    voiced tempo bars channel =
      ((Timeline.ofBars tempo bars).filterMap (channelEvent channel)).map fun entry =>
        (entry.1, entry.2.reduce) := by
  rw [voiced, List.map_filterMap]
  apply List.filterMap_congr
  intro event _
  rcases event with ⟨message, tick, nanos⟩
  cases message with
  | voice number action =>
      by_cases same : Voice.channelNibble number = channel
      · simp [channelEvent, same, TrackEvent.reduce, nibble]
      · simp [channelEvent, same]
  | _ => rfl

/-! ## The whole file -/

namespace Track

theorem reduce_deltas (previous : Nat) (timed : List (Nat × TrackEvent)) :
    reduce (deltas previous timed) =
      deltas previous (timed.map fun entry => (entry.1, entry.2.reduce)) := by
  induction timed generalizing previous with
  | nil => rfl
  | cons entry rest ih =>
      have later := ih entry.1
      rw [reduce] at later ⊢
      rw [deltas, List.map_cons, List.map_cons, later, deltas]
      simp only [Nat.mod_mod]

theorem reduce_close (timed : List (Nat × TrackEvent)) :
    reduce (close timed) = close (timed.map fun entry => (entry.1, entry.2.reduce)) := by
  rw [close, close, ← reduce_deltas, reduce, List.map_append]
  rfl

theorem map_snd_deltas (previous : Nat) (timed : List (Nat × TrackEvent)) :
    (deltas previous timed).map (·.2) = timed.map (·.2) := by
  induction timed generalizing previous with
  | nil => rfl
  | cons entry rest ih => rw [deltas, List.map_cons, List.map_cons, ih]

theorem map_fst_deltas (previous : Nat) (timed : List (Nat × TrackEvent)) :
    (deltas previous timed).map (·.1) =
      (List.zipWith (· - ·) (timed.map (·.1)) (previous :: timed.map (·.1))).map
        (· % 2 ^ quantityBits) := by
  induction timed generalizing previous with
  | nil => rfl
  | cons entry rest ih =>
      rw [deltas, List.map_cons, List.map_cons, ih]
      rfl

theorem isWritable_close {timed : List (Nat × TrackEvent)}
    (writable : ∀ entry ∈ timed, entry.2.IsWritable) :
    ∀ entry ∈ close timed, entry.2.IsWritable := by
  refine List.forall_mem_append.mpr ⟨fun entry member => ?_, List.forall_mem_singleton.mpr trivial⟩
  have listed : entry.2 ∈ timed.map (·.2) := by
    rw [← map_snd_deltas 0 timed]
    exact List.mem_map_of_mem member
  rcases List.mem_map.mp listed with ⟨other, inTimed, same⟩
  exact same ▸ writable other inTimed

end Track

theorem channelNibble_of_mem_usedChannels {bars : List Bar} {channel : UInt8}
    (used : channel ∈ usedChannels bars) : Voice.channelNibble channel = channel := by
  rcases List.mem_map.mp (List.mem_filter.mp used).1 with ⟨number, inRange, rfl⟩
  have small := List.mem_range.mp inRange
  apply Voice.channelNibble_of_le
  rw [Nat.toUInt8, UInt8.toNat_ofNat']
  omega

section

variable {tempo : UInt16} {bars : List Bar}

theorem ofBars_of_untimed (untimed : ¬ ((∀ bar ∈ bars, bar.meter.isMeasurable = true) ∧
    (Clock.start tempo).InWords bars)) : ofBars tempo bars = .error .untimed := by
  have refused : (Timeline.start tempo).add? bars = none := by
    refine Option.eq_none_iff_forall_ne_some.mpr fun timeline added => untimed ?_
    exact ((Timeline.add?_eq_some_iff (.start tempo)).mp added).1
  rw [ofBars, refused]
  rfl

/-- Measurable bars that words hold make a file if they end in time and have a conductor track. -/
theorem ofBars_of_timed (timed : (∀ bar ∈ bars, bar.meter.isMeasurable = true) ∧
    (Clock.start tempo).InWords bars) :
    ofBars tempo bars =
      if maxTicks < (bars.map (·.capacity)).sum then .error (.tooLong (bars.map (·.capacity)).sum)
      else (conductorTrack tempo bars (Timeline.ofBars tempo bars)).map fun conductor =>
        ⟨conductor :: channelTracks (Timeline.ofBars tempo bars)⟩ := by
  have added : (Timeline.start tempo).add? bars = some ((Timeline.start tempo).add bars) :=
    (Timeline.add?_eq_some_iff (.start tempo)).mpr ⟨timed, rfl⟩
  have ends : ((Timeline.start tempo).add bars).clock.tick = (bars.map (·.capacity)).sum :=
    (Timeline.tick_add? added).trans (Nat.zero_add _)
  rw [ofBars, added]
  dsimp only
  rw [ends]
  by_cases long : maxTicks < (bars.map (·.capacity)).sum
  · rw [if_pos long, if_pos long]
    rfl
  · rw [if_neg long, if_neg long]
    rfl

/-- A file is made of measurable bars that words hold and that end in time, and has a
conductor track in front of those of the channels. -/
theorem ofBars_eq_ok_iff {file : MidiFile} :
    ofBars tempo bars = .ok file ↔
      ((∀ bar ∈ bars, bar.meter.isMeasurable = true) ∧ (Clock.start tempo).InWords bars) ∧
      (bars.map (·.capacity)).sum ≤ maxTicks ∧
      ∃ conductor, conductorTrack tempo bars (Timeline.ofBars tempo bars) = .ok conductor ∧
        file = ⟨conductor :: channelTracks (Timeline.ofBars tempo bars)⟩ := by
  by_cases timed : (∀ bar ∈ bars, bar.meter.isMeasurable = true) ∧
      (Clock.start tempo).InWords bars
  · rw [ofBars_of_timed timed, and_iff_right timed]
    by_cases long : maxTicks < (bars.map (·.capacity)).sum
    · simp [long, Nat.not_le.mpr long]
    · rw [if_neg long, and_iff_right (Nat.not_lt.mp long), map_eq_ok_iff]
      simp only [eq_comm]
  · rw [ofBars_of_untimed timed]
    exact ⟨nofun, fun ⟨isTimed, _⟩ => absurd isTimed timed⟩

end

/-- A reader finds what is conducted and voiced. -/
theorem map_reduce_tracks {tempo : UInt16} {bars : List Bar} {file : MidiFile}
    (written : ofBars tempo bars = .ok file) :
    file.tracks.map Track.reduce =
      (conducted tempo bars :: (usedChannels bars).map (voiced tempo bars)).map Track.close := by
  rcases ofBars_eq_ok_iff.mp written with ⟨_, _, conductor, conducts, rfl⟩
  rw [(conductorTrack_eq_ok conducts).2.2, channelTracks_eq, List.map_cons, List.map_cons,
    Track.reduce_close, map_reduce_conducted, List.map_map, List.map_map]
  congr 1
  apply List.map_congr_left
  intro channel member
  rw [Function.comp_apply, Function.comp_apply, Track.reduce_close,
    voiced_eq (channelNibble_of_mem_usedChannels member)]

/-- A file can be written as soon as its texts and tracks can be counted. -/
theorem isWritable_of_ofBars {tempo : UInt16} {bars : List Bar} {file : MidiFile}
    (written : ofBars tempo bars = .ok file)
    (texts : ∀ bar ∈ bars, ∀ event ∈ bar.events, ∀ content, event.message = .text content →
      (textBytes content).length < 2 ^ quantityBits)
    (lengths : ∀ track ∈ file.tracks, (track.eventBytes none).length < 2 ^ 32) :
    file.IsWritable := by
  rcases ofBars_eq_ok_iff.mp written with ⟨_, _, conductor, conducts, rfl⟩
  rcases conductorTrack_eq_ok conducts with ⟨initial, each, rfl⟩
  refine ⟨?_, lengths, ?_⟩
  · have few : (usedChannels bars).length ≤ 16 := by
      rw [usedChannels]
      exact (List.length_filter_le _ _).trans (by simp)
    rw [channelTracks_eq, List.length_cons, List.length_map]
    omega
  · rw [channelTracks_eq]
    refine List.forall_mem_cons.mpr ⟨Track.isWritable_close ?_, List.forall_mem_map.mpr ?_⟩
    · intro entry member
      rcases mem_conducted member with rfl | ⟨_, _, meter, rfl⟩ | ⟨event, inSong, _, states⟩
      · exact initial
      · trivial
      · have accepted := each event inSong
        rw [states] at accepted
        apply isWritable_of_conductorEvent accepted
        intro content said
        rcases mem_messages_ofBars.mp ⟨event, inSong, said⟩ with ⟨bar, isBar, text, inBar, same⟩
        exact texts bar isBar text inBar content same
    · intro channel _
      apply Track.isWritable_close
      intro entry member
      rcases List.mem_filterMap.mp member with ⟨event, _, found⟩
      rcases channelEvent_eq_some found with ⟨_, rfl, _⟩
      trivial

end MidiFile

end MidiScore
