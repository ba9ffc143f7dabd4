import MidiScore.Proofs.MidiFile.Tracks

/-!
# Files are read back as their score

A file that was written of bars is read to its last byte.  What is found is the conductor
track and a track for every channel in use, with exactly the events that are conducted and
voiced.  Of the differences between their ticks the 28 bits of a number of variable length
are left: all of them where events stand within their bars, since the whole song is then
shorter, but the guard of the writer looks at the end of the last bar only, and an event
beyond its bar may stand any number of ticks behind the one before it.
-/

namespace MidiScore

namespace MidiFile

/-- The differences between ticks in a row, the first one counted from zero. -/
def gaps (ticks : List Nat) : List Nat :=
  List.zipWith (· - ·) ticks (0 :: ticks)

/-- The track has the events of a part in order and then its end.  They are apart by what
is `kept` of the differences between their ticks. -/
structure Track.Carries (kept : Nat → Nat) (part : List (Nat × TrackEvent)) (track : Track) :
    Prop where
  ordered : (part.map (·.1)).Pairwise (· ≤ ·)
  events : track.map (·.2) = part.map (·.2) ++ [.description .endOfTrack]
  deltas : track.map (·.1) = (gaps (part.map (·.1))).map kept ++ [0]

/-- The parts of a score: what is conducted, and what every channel in use voices. -/
def parts (tempo : UInt16) (bars : List Bar) : List (List (Nat × TrackEvent)) :=
  conducted tempo bars :: (usedChannels bars).map (voiced tempo bars)

theorem pairwise_of_mem_parts {tempo : UInt16} {bars : List Bar} :
    ∀ part ∈ parts tempo bars, (part.map (·.1)).Pairwise (· ≤ ·) := by
  refine List.forall_mem_cons.mpr ⟨?_, List.forall_mem_map.mpr ?_⟩
  · rw [List.pairwise_map]
    exact pairwise_mergeSort_key _
  · intro channel member
    rw [voiced_eq (channelNibble_of_mem_usedChannels member), List.map_map, List.pairwise_map]
    exact pairwise_channelEvents tempo bars channel

theorem Track.carries_close {part : List (Nat × TrackEvent)}
    (ordered : (part.map (·.1)).Pairwise (· ≤ ·)) :
    Carries (· % 2 ^ 28) part (close part) where
  ordered := ordered
  events := by rw [close, List.map_append, map_snd_deltas]; rfl
  deltas := by rw [close, List.map_append, map_fst_deltas]; rfl

/-- A closed part keeps all differences exactly if each of them fits 28 bits. -/
theorem Track.carries_id_close_iff {part : List (Nat × TrackEvent)}
    (ordered : (part.map (·.1)).Pairwise (· ≤ ·)) :
    Carries id part (close part) ↔ ∀ gap ∈ gaps (part.map (·.1)), gap < 2 ^ 28 := by
  have reduced := carries_close ordered
  constructor
  · intro whole gap member
    have same := List.append_cancel_right (reduced.deltas.symm.trans whole.deltas)
    have kept : gap % 2 ^ 28 = gap := List.map_inj_left.mp same gap member
    rw [← kept]
    exact Nat.mod_lt gap (by decide)
  · intro small
    have kept : (gaps (part.map (·.1))).map (· % 2 ^ 28) = (gaps (part.map (·.1))).map id :=
      List.map_congr_left fun gap member => Nat.mod_eq_of_lt (small gap member)
    exact ⟨ordered, reduced.events, kept ▸ reduced.deltas⟩

/-- A difference is at most the later tick. -/
theorem exists_le_of_mem_gaps {ticks : List Nat} {gap : Nat} (member : gap ∈ gaps ticks) :
    ∃ tick ∈ ticks, gap ≤ tick := by
  rw [gaps] at member
  generalize 0 :: ticks = earlier at member
  induction ticks generalizing earlier with
  | nil => simp at member
  | cons tick rest ih =>
      cases earlier with
      | nil => simp at member
      | cons previous others =>
          rcases List.mem_cons.mp member with rfl | later
          · exact ⟨tick, List.mem_cons_self, Nat.sub_le tick previous⟩
          · rcases ih others later with ⟨other, inRest, bounded⟩
            exact ⟨other, List.mem_cons_of_mem tick inRest, bounded⟩

/-- No tick of a part comes after all events and the end. -/
theorem tick_le_of_mem_parts_of_le {tempo : UInt16} {bars : List Bar} {latest : Nat}
    (song : ∀ event ∈ Timeline.ofBars tempo bars, event.tick ≤ latest)
    (ends : (bars.map (·.capacity)).sum ≤ latest) :
    ∀ part ∈ parts tempo bars, ∀ tick ∈ part.map (·.1), tick ≤ latest := by
  refine List.forall_mem_cons.mpr ⟨?_, List.forall_mem_map.mpr ?_⟩
  · rw [List.forall_mem_map]
    intro entry member
    rcases mem_conducted member with rfl | ⟨index, _, meter, rfl⟩ | ⟨event, inSong, same, _⟩
    · exact Nat.zero_le _
    · exact Nat.le_trans (Bar.ticksBefore_le bars index) ends
    · exact same ▸ song event inSong
  · intro channel used
    rw [voiced_eq (channelNibble_of_mem_usedChannels used), List.map_map, List.forall_mem_map]
    intro entry member
    rcases List.mem_filterMap.mp member with ⟨event, inSong, found⟩
    rcases channelEvent_eq_some found with ⟨_, rfl, _⟩
    exact song event inSong

/-- Where events stand within their bars, no tick of a part comes after the end. -/
theorem tick_le_of_mem_parts {tempo : UInt16} {bars : List Bar}
    (within : ∀ bar ∈ bars, ∀ event ∈ bar.events, event.position ≤ bar.capacity) :
    ∀ part ∈ parts tempo bars, ∀ tick ∈ part.map (·.1), tick ≤ (bars.map (·.capacity)).sum := by
  refine tick_le_of_mem_parts_of_le (fun event sorted => ?_) (Nat.le_refl _)
  have before := Clock.tick_le_of_mem_placeBars within (List.mem_mergeSort.mp sorted)
  exact before.trans ((Clock.tick_placeBars (.start tempo) bars).trans (Nat.zero_add _)).le

/-- A file whose texts and tracks can be counted is read back to its last byte: one conductor
track and one track for each channel in use, which carry the parts of the score with all
differences reduced to 28 bits.  They carry them whole exactly if all differences are that
small, and so they do if events stand within their bars. -/
theorem read_bytes_ofBars {tempo : UInt16} {bars : List Bar} {file : MidiFile}
    (written : ofBars tempo bars = .ok file)
    (texts : ∀ bar ∈ bars, ∀ event ∈ bar.events, ∀ content, event.message = .text content →
      (textBytes content).length < 2 ^ 28)
    (lengths : ∀ track ∈ file.tracks, (track.eventBytes none).length < 2 ^ 32) :
    ∃ tracks, read file.bytes = some ⟨1, 960, tracks⟩ ∧
      List.Forall₂ (Track.Carries (· % 2 ^ 28)) (parts tempo bars) tracks ∧
      (List.Forall₂ (Track.Carries id) (parts tempo bars) tracks ↔
        ∀ part ∈ parts tempo bars, ∀ gap ∈ gaps (part.map (·.1)), gap < 2 ^ 28) ∧
      ((∀ bar ∈ bars, ∀ event ∈ bar.events, event.position ≤ bar.capacity) →
        List.Forall₂ (Track.Carries id) (parts tempo bars) tracks) := by
  have found := read_bytes (isWritable_of_ofBars written texts lengths)
  rw [map_reduce_tracks written, ← parts] at found
  have whole_iff : List.Forall₂ (Track.Carries id) (parts tempo bars)
        ((parts tempo bars).map Track.close) ↔
      ∀ part ∈ parts tempo bars, ∀ gap ∈ gaps (part.map (·.1)), gap < 2 ^ 28 := by
    rw [List.forall₂_map_right_iff, List.forall₂_same]
    exact forall₂_congr fun part member =>
      Track.carries_id_close_iff (pairwise_of_mem_parts part member)
  refine ⟨_, found, ?_, whole_iff, ?_⟩
  · rw [List.forall₂_map_right_iff, List.forall₂_same]
    exact fun part member => Track.carries_close (pairwise_of_mem_parts part member)
  · intro within
    apply whole_iff.mpr
    intro part member gap isGap
    rcases exists_le_of_mem_gaps isGap with ⟨tick, inPart, bounded⟩
    have short := tick_le_of_mem_parts within part member tick inPart
    have ends := (ofBars_eq_ok_iff.mp written).2.1
    rw [maxTicks, quantityBits] at ends
    omega

/-- A note under a text: the text is found on the conductor track, the note on the track of
its channel. -/
theorem read_bytes_ofBars_verse :
    let bars : List Bar := [⟨.common, [⟨.text "verse", 0, 0, 3⟩,
      ⟨.voice 3 (.noteOn 60 100), 0, 960, 3⟩, ⟨.voice 3 (.noteOff 60), 960, 0, 3⟩]⟩]
    ∃ file tracks, ofBars 120 bars = .ok file ∧ read file.bytes = some ⟨1, 960, tracks⟩ ∧
      List.Forall₂ (Track.Carries id)
        [[(0, .description (.tempo 500000)), (0, .description (.timeSignature 4 2)),
            (0, .description (.text "verse"))],
          [(0, .voice 3 (.noteOn 60 100)), (960, .voice 3 (.noteOff 60))]] tracks := by
  intro bars
  let conductor : List (Nat × TrackEvent) :=
    [(0, tempoEvent 120), (0, .description (.timeSignature 4 2)),
      (0, .description (.text "verse"))]
  let channel : List (Nat × TrackEvent) :=
    [(0, .voice 3 (.noteOn 60 100)), (960, .voice 3 (.noteOff 60))]
  have song : Timeline.ofBars 120 bars = [⟨.text "verse", 0, 0⟩,
      ⟨.voice 3 (.noteOn 60 100), 0, 0⟩, ⟨.voice 3 (.noteOff 60), 960, 500000000⟩] := by
    have placed : ((Timeline.start 120).add bars).waiting = [⟨.text "verse", 0, 0⟩,
        ⟨.voice 3 (.noteOn 60 100), 0, 0⟩, ⟨.voice 3 (.noteOff 60), 960, 500000000⟩] := by
      decide +kernel
    exact Timeline.ofBars_of_waiting placed (by decide)
  have conductorSorted : conductor.mergeSort Track.precedes = conductor :=
    List.mergeSort_of_pairwise (by decide)
  have channelSorted : channel.mergeSort Track.precedes = channel :=
    List.mergeSort_of_pairwise (by decide)
  have parts_eq : parts 120 bars = [conductor, channel] := by
    have used : usedChannels bars = [3] := by decide
    have voices : voiced 120 bars 3 = channel := by
      rw [voiced, song]
      rfl
    have conducts : conducted 120 bars = conductor := by
      rw [conducted, song]
      exact conductorSorted
    rw [parts, conducts, used, List.map_singleton, voices]
  have written : ofBars 120 bars = .ok ⟨[Track.close conductor, Track.close channel]⟩ := by
    refine ofBars_eq_ok_iff.mpr ⟨by decide +kernel, by decide, Track.close conductor, ?_, ?_⟩
    · rw [song]
      exact congrArg (fun timed => Except.ok (Track.close timed)) conductorSorted
    · rw [song]
      exact congrArg (fun timed => (⟨[Track.close conductor, Track.close timed]⟩ : MidiFile))
        channelSorted.symm
  have short : (textBytes "verse").length < 2 ^ 28 := by decide
  rcases read_bytes_ofBars written (by simpa [bars] using short) (by decide)
    with ⟨tracks, found, _, _, whole⟩
  exact ⟨_, tracks, written, found, parts_eq ▸ whole (by decide)⟩

/-- A start that stands beyond its bar comes at once: the guard passes, since the bar ends
after 3840 ticks, but the difference of `2 ^ 28` ticks leaves no bits. -/
theorem read_bytes_drops_ticks :
    let bars : List Bar := [⟨.common, [⟨.start, 2 ^ 28, 0, 0⟩]⟩]
    ∃ file, ofBars 120 bars = .ok file ∧
      (Timeline.ofBars 120 bars).map (fun event => (event.message, event.tick)) =
        [(.start, 2 ^ 28)] ∧
      ∃ tracks, read file.bytes = some ⟨1, 960, tracks⟩ ∧
        tracks = [[(0, .description (.tempo 500000)), (0, .description (.timeSignature 4 2)),
          (0, .escape 0xFA), (0, .description .endOfTrack)]] ∧
        ¬ List.Forall₂ (Track.Carries id) (parts 120 bars) tracks := by
  intro bars
  let part : List (Nat × TrackEvent) :=
    [(0, tempoEvent 120), (0, .description (.timeSignature 4 2)), (2 ^ 28, .escape 0xFA)]
  have song : Timeline.ofBars 120 bars = [⟨.start, 2 ^ 28, 139810133333333⟩] := by
    decide +kernel
  have sorted : part.mergeSort Track.precedes = part := List.mergeSort_of_pairwise (by decide)
  have parts_eq : parts 120 bars = [part] := by
    rw [parts, conducted, song]
    exact congrArg (fun conducted => [conducted]) sorted
  have written : ofBars 120 bars = .ok ⟨[Track.close part]⟩ := by
    refine ofBars_eq_ok_iff.mpr ⟨by decide +kernel, by decide, Track.close part, ?_, ?_⟩
    · rw [song]
      exact congrArg (fun timed => Except.ok (Track.close timed)) sorted
    · rw [song]
      rfl
  have writable := isWritable_of_ofBars written (by simp [bars]) (by decide)
  refine ⟨_, written, by rw [song]; rfl, _, read_bytes writable, by decide, ?_⟩
  rw [parts_eq]
  intro whole
  cases whole with
  | cons carries _ => exact absurd carries.deltas (by decide)

end MidiFile

end MidiScore
