import MidiScore.Proofs.Flush.Duration
import MidiScore.Proofs.MidiFile.Directed
import MidiScore.Proofs.MidiFile.RoundTrip

/-!
# Following the conductor

A reader of the conductor track keeps the last tempo and the last meter that it came by.
Since the track is written bar by bar, a reader who has come to the start of a bar has the
meter of this bar and the tempo at which a timeline plays it, and nothing changes before the
next bar starts.
-/

namespace MidiScore

namespace MidiFile

/-- What a reader of a track knows of tempo and meter. -/
structure Directions where
  /-- Microseconds in a quarter note. -/
  micros : Option Nat
  /-- Beats in a bar, and the power of two that divides the whole note. -/
  meter : Option (UInt8 × UInt8)
  deriving Repr, DecidableEq

/-- What a reader knows after one more event. -/
def Directions.follow (directions : Directions) : TrackEvent → Directions
  | .description (.tempo micros) => { directions with micros := some micros }
  | .description (.timeSignature numerator power) =>
      { directions with meter := some (numerator, power) }
  | _ => directions

namespace Track

/-- The events of a track at their ticks, the first one counted from `previous`. -/
def timed (previous : Nat) : Track → List (Nat × TrackEvent)
  | [] => []
  | (delta, event) :: rest => (previous + delta, event) :: timed (previous + delta) rest

/-- What a reader knows who came to a tick and took in all events up to it. -/
def directionsAt (track : Track) (tick : Nat) : Directions :=
  (((timed 0 track).filter (·.1 ≤ tick)).map (·.2)).foldl Directions.follow ⟨none, none⟩

/-- Small differences lead back to the ticks. -/
theorem timed_deltas_append {part : List (Nat × TrackEvent)} {previous : Nat} (rest : Track)
    (ordered : ((previous :: part.map (·.1))).Pairwise (· ≤ ·))
    (small : ∀ entry ∈ part, entry.1 < 2 ^ quantityBits) :
    timed previous (deltas previous part ++ rest) =
      part ++ timed ((part.getLast?.map (·.1)).getD previous) rest := by
  induction part generalizing previous with
  | nil => rfl
  | cons entry others ih =>
      rcases List.pairwise_cons.mp ordered with ⟨least, ordered⟩
      rcases List.forall_mem_cons.mp small with ⟨smallHere, smallLater⟩
      have after : previous ≤ entry.1 := least entry.1 List.mem_cons_self
      have back : previous + (entry.1 - previous) % 2 ^ quantityBits = entry.1 := by
        rw [Nat.mod_eq_of_lt (Nat.lt_of_le_of_lt (Nat.sub_le _ _) smallHere)]
        exact Nat.add_sub_cancel' after
      have later := ih ordered smallLater
      rw [deltas, List.cons_append, timed, back, later, List.cons_append]
      cases others with
      | nil => rfl
      | cons => simp [List.getLast?_cons]

/-- At its end a closed track has the tick of its last event. -/
theorem exists_timed_close {part : List (Nat × TrackEvent)}
    (ordered : (part.map (·.1)).Pairwise (· ≤ ·))
    (small : ∀ entry ∈ part, entry.1 < 2 ^ quantityBits) :
    ∃ last, timed 0 (close part) = part ++ [(last, .description .endOfTrack)] ∧
      (last = 0 ∨ ∃ entry ∈ part, entry.1 = last) := by
  have fromStart := List.pairwise_cons.mpr ⟨fun tick _ => Nat.zero_le tick, ordered⟩
  refine ⟨_, timed_deltas_append _ fromStart small, ?_⟩
  cases last : part.getLast? with
  | none => exact .inl rfl
  | some entry => exact .inr ⟨entry, List.mem_of_getLast? last, rfl⟩

end Track

/-! ## Following bar by bar -/

/-- A meter as a file says it. -/
def signature (meter : Meter) : UInt8 × UInt8 :=
  (meter.numerator, (twos 8 meter.denominator.toNat).toUInt8)

/-- The power of two gives back the note value. -/
theorem two_pow_signature {meter : Meter} (valid : meter.isValid = true) :
    2 ^ (signature meter).2.toNat = meter.denominator.toNat := by
  simp only [Meter.isValid, Bool.and_eq_true] at valid
  have all : ∀ value ∈ noteValues, 2 ^ (twos 8 value).toUInt8.toNat = value := by decide
  exact all _ (isNoteValue_iff_mem.mp valid.2)

theorem foldl_meterChange (previous : Option Meter) (bar : Bar) (micros : Option Nat) :
    (meterChange previous bar).foldl Directions.follow ⟨micros, previous.map signature⟩ =
      ⟨micros, some (signature bar.meter)⟩ := by
  rw [meterChange]
  split
  · rename_i same
    rw [same]
    rfl
  · rfl

theorem foldl_statements (events : List Event) (tempo : UInt16) (meter : Option (UInt8 × UInt8)) :
    (events.filterMap (scoreEvent? ·.message)).foldl Directions.follow
        ⟨some (60000000 / tempo.toNat), meter⟩ =
      ⟨some (60000000 / (Event.tempoAfter tempo events).toNat), meter⟩ := by
  induction events generalizing tempo with
  | nil => rfl
  | cons event rest ih =>
      have here := ih (event.message.tempo?.getD tempo)
      rw [Event.tempoAfter_cons, List.filterMap_cons]
      cases said : event.message <;> rw [said] at here <;> exact here

/-- The end of a track directs nothing, whether a reader has come to it or not. -/
theorem foldl_filter_endOfTrack (last : Nat) (among : Nat × TrackEvent → Bool)
    (directions : Directions) :
    (([(last, .description .endOfTrack)].filter among).map (·.2)).foldl Directions.follow
      directions = directions := by
  rw [List.filter_singleton]
  cases among _ <;> rfl

/-- A reader of bars comes to the last tempo, and to the meter of the last bar. -/
theorem foldl_directed (tick : Nat) (previous : Option Meter) (bars : List Bar) (tempo : UInt16) :
    ((directed tick previous bars).map (·.2)).foldl Directions.follow
        ⟨some (60000000 / tempo.toNat), previous.map signature⟩ =
      ⟨some (60000000 / (Event.tempoAfter tempo (bars.flatMap (·.events))).toNat),
        ((bars.getLast?.map (·.meter)).or previous).map signature⟩ := by
  induction bars generalizing tick previous tempo with
  | nil => rfl
  | cons bar rest ih =>
      have later := ih (tick + bar.capacity) (some bar.meter) (Event.tempoAfter tempo bar.events)
      rw [directed, List.map_append, List.map_map, List.foldl_append]
      have here : ((meterChange previous bar ++ statements bar).map ((·.2) ∘ (tick, ·))) =
          meterChange previous bar ++ statements bar := List.map_id _
      rw [here, List.foldl_append, foldl_meterChange, statements, foldl_statements]
      rw [Option.map_some] at later
      rw [later, List.flatMap_cons, Event.tempoAfter_append, List.getLast?_cons]
      cases rest.getLast? <;> rfl

/-- Up to the start of a bar stands what is said by the bars up to it. -/
theorem filter_directed_le {tick : Nat} {previous : Option Meter} {bars : List Bar} {index : Nat}
    (within : index < bars.length) (lasting : ∀ bar ∈ bars, 0 < bar.capacity) :
    (directed tick previous bars).filter (·.1 ≤ tick + Bar.ticksBefore bars index) =
      directed tick previous (bars.take (index + 1)) := by
  induction bars generalizing tick previous index with
  | nil => contradiction
  | cons bar rest ih =>
      rcases List.forall_mem_cons.mp lasting with ⟨lastingHere, lastingLater⟩
      have here : ((meterChange previous bar ++ statements bar).map (tick, ·)).filter
          (·.1 ≤ tick + Bar.ticksBefore (bar :: rest) index) =
          (meterChange previous bar ++ statements bar).map (tick, ·) := by
        refine List.filter_eq_self.mpr fun entry member => ?_
        rcases List.mem_map.mp member with ⟨_, _, rfl⟩
        exact decide_eq_true (Nat.le_add_right _ _)
      rw [directed, List.filter_append, here, List.take_succ_cons, directed]
      congr 1
      cases index with
      | zero =>
          -- the other bars start later
          have first : Bar.ticksBefore (bar :: rest) 0 = 0 := rfl
          exact filter_directed_eq_nil (· ≤ tick + Bar.ticksBefore (bar :: rest) 0)
            fun other bounded => decide_eq_false (by omega)
      | succ index =>
          have before : tick + Bar.ticksBefore (bar :: rest) (index + 1) =
              tick + bar.capacity + Bar.ticksBefore rest index := by
            simp [Bar.ticksBefore, Nat.add_assoc]
          rw [before]
          exact ih (Nat.lt_of_succ_lt_succ within) lastingLater

/-! ## The conductor track -/

section

variable {tempo : UInt16} {bars : List Bar}

/-- All that is conducted stands where a bar starts. -/
theorem exists_of_mem_conducted (start : ∀ bar ∈ bars, bar.StatesAtStart)
    (lasting : ∀ bar ∈ bars, 0 < bar.capacity) {entry : Nat × TrackEvent}
    (member : entry ∈ conducted tempo bars) : ∃ index, entry.1 = Bar.ticksBefore bars index := by
  rw [conducted_eq start lasting] at member
  rcases List.mem_cons.mp member with rfl | inBars
  · exact ⟨0, rfl⟩
  · rcases exists_of_mem_directed inBars with ⟨index, tick_eq⟩
    exact ⟨index, tick_eq.trans (Nat.zero_add _)⟩

/-- A file that is written holds what is conducted at its ticks. -/
theorem exists_timed_conductor (start : ∀ bar ∈ bars, bar.StatesAtStart)
    (lasting : ∀ bar ∈ bars, 0 < bar.capacity)
    (short : (bars.map (·.capacity)).sum ≤ maxTicks) :
    ∃ index, (Track.close (conducted tempo bars)).timed 0 =
      conducted tempo bars ++ [(Bar.ticksBefore bars index, .description .endOfTrack)] := by
  have ordered : ((conducted tempo bars).map (·.1)).Pairwise (· ≤ ·) :=
    pairwise_of_mem_parts _ List.mem_cons_self
  have small : ∀ entry ∈ conducted tempo bars, entry.1 < 2 ^ quantityBits := by
    intro entry member
    rcases exists_of_mem_conducted start lasting member with ⟨index, tick_eq⟩
    have before := Bar.ticksBefore_le bars index
    rw [maxTicks, quantityBits] at short
    rw [quantityBits]
    omega
  rcases Track.exists_timed_close ordered small with ⟨last, timed_eq, rfl | ⟨entry, member, rfl⟩⟩
  · exact ⟨0, timed_eq⟩
  · rcases exists_of_mem_conducted start lasting member with ⟨index, tick_eq⟩
    exact ⟨index, tick_eq ▸ timed_eq⟩

/-- A reader of the conductor track who comes to the start of a bar has its meter and the
tempo at which it is played. -/
theorem directionsAt_conductor {index : Nat} {bar : Bar}
    (start : ∀ bar ∈ bars, bar.StatesAtStart) (lasting : ∀ bar ∈ bars, 0 < bar.capacity)
    (short : (bars.map (·.capacity)).sum ≤ maxTicks)
    (found : bars[index]? = some bar) :
    (Track.close (conducted tempo bars)).directionsAt (Bar.ticksBefore bars index) =
      ⟨some (60000000 / (Bar.tempoOf tempo bars index).toNat), some (signature bar.meter)⟩ := by
  rcases exists_timed_conductor start lasting short with ⟨last, timed_eq⟩
  have within : index < bars.length := (List.getElem?_eq_some_iff.mp found).1
  have upTo : (directed 0 none bars).filter (·.1 ≤ Bar.ticksBefore bars index) =
      directed 0 none (bars.take (index + 1)) := by
    have kept : (directed 0 none bars).filter (·.1 ≤ 0 + Bar.ticksBefore bars index) =
        directed 0 none (bars.take (index + 1)) := filter_directed_le within lasting
    rwa [Nat.zero_add] at kept
  have taken : (bars.take (index + 1)).getLast? = some bar := by
    rw [List.take_add_one, found, Option.toList_some, List.getLast?_concat]
  have followed : ((directed 0 none (bars.take (index + 1))).map (·.2)).foldl Directions.follow
      ⟨some (60000000 / tempo.toNat), none⟩ = _ := foldl_directed 0 none _ tempo
  rw [Track.directionsAt, timed_eq, conducted_eq start lasting, List.filter_append,
    List.map_append, List.foldl_append, foldl_filter_endOfTrack,
    List.filter_cons_of_pos (by simp), upTo]
  refine followed.trans ?_
  rw [taken]
  rfl

/-- Nothing that a reader comes by stands inside of a bar. -/
theorem not_between_of_mem_timed_conductor (start : ∀ bar ∈ bars, bar.StatesAtStart)
    (lasting : ∀ bar ∈ bars, 0 < bar.capacity)
    (short : (bars.map (·.capacity)).sum ≤ maxTicks) (index : Nat) :
    ∀ entry ∈ (Track.close (conducted tempo bars)).timed 0,
      ¬ (Bar.ticksBefore bars index < entry.1 ∧ entry.1 < Bar.ticksBefore bars (index + 1)) := by
  have outside (place : Nat) : ¬ (Bar.ticksBefore bars index < Bar.ticksBefore bars place ∧
      Bar.ticksBefore bars place < Bar.ticksBefore bars (index + 1)) := by
    rintro ⟨after, before⟩
    rcases Nat.lt_or_ge index place with later | earlier
    · exact Nat.not_lt.mpr (Bar.ticksBefore_mono bars later) before
    · exact Nat.not_lt.mpr (Bar.ticksBefore_mono bars earlier) after
  rcases exists_timed_conductor start lasting short with ⟨last, timed_eq⟩
  rw [timed_eq]
  refine List.forall_mem_append.mpr ⟨fun entry member => ?_,
    List.forall_mem_singleton.mpr (outside last)⟩
  rcases exists_of_mem_conducted start lasting member with ⟨place, tick_eq⟩
  exact tick_eq ▸ outside place

end

end MidiFile

/-- From accepted settings the bars of a flush have valid meters. -/
theorem Session.Reachable.meter_isValid_of_mem_flush {config : Config}
    {definitions : List (String × List Declaration)} {session : Session}
    (accepted : config.IsAccepted) (reached : Reachable config definitions session) :
    ∀ bar ∈ session.flush.1, bar.meter.isValid = true := by
  intro bar member
  rcases Bar.exists_meter_of_mem_settle member with ⟨waited, inBuffer, meter_eq⟩
  exact meter_eq ▸ reached.meter_isValid accepted waited inBuffer

theorem Bar.capacity_pos {bar : Bar} (valid : bar.meter.isValid = true) : 0 < bar.capacity := by
  simp only [Meter.isValid, Bool.and_eq_true, decide_eq_true_eq] at valid
  exact Nat.mul_pos valid.1.1 (Nat.lt_of_lt_of_le (by decide) (Note.thirty_le_base valid.2))

open MidiFile

/-- The conductor track of a score leads a reader through its bars: who has taken in all that
stands up to the start of a bar has the two numbers of its meter and the tempo at which it is
played, in whole microseconds, and comes by nothing else before the next bar starts.  If
texts and tracks can be counted, the bytes of the file are read back with this track first. -/
theorem exportFile_conducts {config : Config} {declarations : List Declaration} {file : MidiFile}
    (accepted : config.IsAccepted) (written : exportFile config declarations = .ok file) :
    ∃ bars conductor others, compile config declarations = .ok bars ∧
      file.tracks = conductor :: others ∧
      (∀ index bar, bars[index]? = some bar →
        (∃ power : UInt8, bar.meter.denominator.toNat = 2 ^ power.toNat ∧
          conductor.directionsAt (Bar.ticksBefore bars index) =
            ⟨some (60000000 / (Bar.tempoOf config.tempo bars index).toNat),
              some (bar.meter.numerator, power)⟩) ∧
        ∀ entry ∈ conductor.timed 0,
          ¬ (Bar.ticksBefore bars index < entry.1 ∧ entry.1 < Bar.ticksBefore bars (index + 1))) ∧
      ((∀ bar ∈ bars, ∀ event ∈ bar.events, ∀ content, event.message = .text content →
          (textBytes content).length < 2 ^ 28) →
        (∀ track ∈ file.tracks, (track.eventBytes none).length < 2 ^ 32) →
        ∃ tracks, read file.bytes = some ⟨1, 960, conductor :: tracks⟩) := by
  rcases bind_eq_ok_iff.mp written with ⟨bars, compiled, written⟩
  have compiled := mapError_eq_ok_iff.mp compiled
  have written := mapError_eq_ok_iff.mp written
  rcases Session.exists_reachable_of_compile compiled with ⟨definitions, session, reached, rfl⟩
  have start := reached.statesAtStart_of_mem_flush
  have valid := reached.meter_isValid_of_mem_flush accepted
  have lasting : ∀ bar ∈ session.flush.1, 0 < bar.capacity :=
    fun bar member => Bar.capacity_pos (valid bar member)
  have whole := written
  rcases ofBars_eq_ok_iff.mp written with ⟨_, short, conductor, conducts, rfl⟩
  rcases conductorTrack_eq_ok conducts with ⟨_, _, rfl⟩
  refine ⟨session.flush.1, _, _, compiled, rfl, fun index bar found => ⟨?_, ?_⟩, ?_⟩
  · have isValid := valid bar (List.mem_of_getElem? found)
    exact ⟨_, (two_pow_signature isValid).symm, directionsAt_conductor start lasting short found⟩
  · exact not_between_of_mem_timed_conductor start lasting short index
  · intro texts lengths
    have found := read_bytes (isWritable_of_ofBars whole texts lengths)
    rw [map_reduce_tracks whole, List.map_cons] at found
    exact ⟨_, found⟩

/-- A tempo that waits for a rest, and a rest in another meter: the reader is at half the
first tempo from the start, and in three quarters from the second bar on. -/
theorem exportFile_conducts_slow_waltz :
    let score : List Declaration := [.tempo 60, .notes [.plain '-'],
      .timeSignature ⟨3, 4⟩, .notes [.plain '-']]
    ∃ file conductor others power, exportFile .standard score = .ok file ∧
      file.tracks = conductor :: others ∧ 2 ^ power.toNat = 4 ∧
      conductor.directionsAt 3840 = ⟨some 1000000, some (3, power)⟩ := by
  intro score
  let bars : List Bar := [⟨.common, [⟨.tempo 60, 0, 0, 0⟩]⟩, ⟨⟨3, 4⟩, []⟩]
  have compiled : compile .standard score = .ok bars :=
    Session.compile_eq_ok_iff.mpr ⟨by decide +kernel, by decide +kernel⟩
  have song : Timeline.ofBars 120 bars = [⟨.tempo 60, 0, 0⟩] := by decide +kernel
  have conducts : ∃ conductor, conductorTrack 120 bars [⟨.tempo 60, 0, 0⟩] = .ok conductor :=
    ⟨_, rfl⟩
  rcases conducts with ⟨track, conducts⟩
  have made : ofBars 120 bars = .ok ⟨track :: channelTracks (Timeline.ofBars 120 bars)⟩ :=
    ofBars_eq_ok_iff.mpr
      ⟨by decide +kernel, by decide, track, song.symm ▸ conducts, rfl⟩
  have written : exportFile .standard score =
      .ok ⟨track :: channelTracks (Timeline.ofBars 120 bars)⟩ :=
    bind_eq_ok_iff.mpr ⟨bars, mapError_eq_ok_iff.mpr compiled, mapError_eq_ok_iff.mpr made⟩
  rcases exportFile_conducts (.inl rfl) written with ⟨others, conductor, rest, same, tracks, led, _⟩
  obtain rfl : bars = others := Except.ok.inj (compiled.symm.trans same)
  rcases (led 1 ⟨⟨3, 4⟩, []⟩ rfl).1 with ⟨power, denominator, directions⟩
  have tick : Bar.ticksBefore bars 1 = 3840 := by decide
  have tempo : Bar.tempoOf Config.standard.tempo bars 1 = 60 := by decide
  rw [tick, tempo] at directions
  exact ⟨_, conductor, rest, power, written, tracks, denominator.symm, directions⟩

end MidiScore
