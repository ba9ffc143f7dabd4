import MidiScore.Proofs.MidiFile.Conductor

/-!
# Ticks back from differences

A track says when its events come by the ticks between each of them and the one before, of
which a file keeps 28 bits.  A reader who adds these up therefore finds the ticks of the score
as long as neighbours on the track are less than `2 ^ 28` ticks apart; behind the first two
that are further apart every event of the track is found too early, by some multiple of
`2 ^ 28` ticks.  The writer refuses songs by the end of their last bar.  This would be enough
to keep all ticks if it also looked at events, which may stand behind the end of the song.
-/

namespace MidiScore.MidiFile

namespace Track

/-- Adding up the differences on the track, a reader finds the events of a part, each at its
tick, and behind them the end. -/
def Recovers (part : List (Nat × TrackEvent)) (track : Track) : Prop :=
  ∃ last, track.timed 0 = part ++ [(last, .description .endOfTrack)]

/-- Adding up the differences on the track, a reader finds the events of a part in their
order, each at its tick or some multiple of `2 ^ 28` ticks earlier, and behind them the
end. -/
def RecoversModulo (part : List (Nat × TrackEvent)) (track : Track) : Prop :=
  ∃ found last, track.timed 0 = found ++ [(last, .description .endOfTrack)] ∧
    List.Forall₂ (fun entry early => early.2 = entry.2 ∧
      ∃ lost, entry.1 = early.1 + 2 ^ 28 * lost) part found

theorem timed_append (previous : Nat) (track rest : Track) :
    timed previous (track ++ rest) =
      timed previous track ++
        timed (((timed previous track).getLast?.map (·.1)).getD previous) rest := by
  induction track generalizing previous with
  | nil => rfl
  | cons entry others ih =>
      rw [List.cons_append, timed, ih, timed, List.cons_append, List.getLast?_cons]
      cases (timed (previous + entry.1) others).getLast? <;> rfl

theorem exists_timed_append_close (part : List (Nat × TrackEvent)) :
    ∃ last, timed 0 (close part) =
      timed 0 (deltas 0 part) ++ [(last, .description .endOfTrack)] :=
  ⟨_, timed_append 0 (deltas 0 part) [(0, .description .endOfTrack)]⟩

/-- A reader who is early by some multiple of `2 ^ 28` ticks stays so. -/
theorem forall₂_timed_deltas {part : List (Nat × TrackEvent)} {start previous : Nat}
    (ordered : (previous :: part.map (·.1)).Pairwise (· ≤ ·))
    (early : ∃ lost, previous = start + 2 ^ 28 * lost) :
    List.Forall₂ (fun entry early => early.2 = entry.2 ∧
      ∃ lost, entry.1 = early.1 + 2 ^ 28 * lost) part (timed start (deltas previous part)) := by
  induction part generalizing start previous with
  | nil => exact .nil
  | cons entry rest ih =>
      rcases List.pairwise_cons.mp ordered with ⟨least, ordered⟩
      rcases early with ⟨lost, previous_eq⟩
      have after : previous ≤ entry.1 := least entry.1 List.mem_cons_self
      have split := Nat.mod_add_div (entry.1 - previous) (2 ^ 28)
      have earlyHere : ∃ lost, entry.1 =
          start + (entry.1 - previous) % 2 ^ 28 + 2 ^ 28 * lost :=
        ⟨lost + (entry.1 - previous) / 2 ^ 28, by rw [Nat.mul_add]; omega⟩
      exact .cons ⟨rfl, earlyHere⟩ (ih ordered earlyHere)

/-- A reader finds all ticks exactly if no difference is cut. -/
theorem timed_deltas_eq_iff {part : List (Nat × TrackEvent)} {previous : Nat}
    (ordered : (previous :: part.map (·.1)).Pairwise (· ≤ ·)) :
    timed previous (deltas previous part) = part ↔
      ∀ gap ∈ List.zipWith (· - ·) (part.map (·.1)) (previous :: part.map (·.1)),
        gap < 2 ^ 28 := by
  induction part generalizing previous with
  | nil => simp [deltas, timed]
  | cons entry rest ih =>
      rcases entry with ⟨tick, event⟩
      rcases List.pairwise_cons.mp ordered with ⟨least, ordered⟩
      have after : previous ≤ tick := least tick List.mem_cons_self
      have here : previous + (tick - previous) % 2 ^ quantityBits = tick ↔
          tick - previous < 2 ^ 28 := by
        rw [quantityBits, ← Nat.mod_eq_iff_lt (by decide)]
        omega
      rw [deltas, timed, List.map_cons, List.zipWith_cons_cons, List.forall_mem_cons,
        List.cons.injEq, Prod.mk.injEq]
      refine Iff.trans ?_ (and_congr here (ih ordered))
      generalize previous + (tick - previous) % 2 ^ quantityBits = found
      constructor
      · rintro ⟨⟨rfl, _⟩, later⟩
        exact ⟨rfl, later⟩
      · rintro ⟨rfl, later⟩
        exact ⟨⟨rfl, rfl⟩, later⟩

theorem recoversModulo_close {part : List (Nat × TrackEvent)}
    (ordered : (part.map (·.1)).Pairwise (· ≤ ·)) : RecoversModulo part (close part) := by
  rcases exists_timed_append_close part with ⟨last, timed_eq⟩
  have fromStart := List.pairwise_cons.mpr ⟨fun tick _ => Nat.zero_le tick, ordered⟩
  exact ⟨_, last, timed_eq, forall₂_timed_deltas fromStart ⟨0, rfl⟩⟩

theorem recovers_close_iff {part : List (Nat × TrackEvent)}
    (ordered : (part.map (·.1)).Pairwise (· ≤ ·)) :
    Recovers part (close part) ↔ ∀ gap ∈ gaps (part.map (·.1)), gap < 2 ^ 28 := by
  rcases exists_timed_append_close part with ⟨last, timed_eq⟩
  have fromStart := List.pairwise_cons.mpr ⟨fun tick _ => Nat.zero_le tick, ordered⟩
  rw [Recovers, timed_eq, gaps, ← timed_deltas_eq_iff fromStart]
  constructor
  · rintro ⟨end_, same⟩
    exact (List.append_inj' same rfl).1
  · intro same
    exact ⟨last, by rw [same]⟩

end Track

/-- A note of a bar in four quarters may be written wherever a word lets it stand, on a track
of its own. -/
theorem exists_ofBars_note {struck released : Nat} (length : Nat) (order : struck ≤ released)
    (fits : released < 4294967296) :
    let bars : List Bar := [⟨.common, [⟨.voice 0 (.noteOn 60 100), struck, length, 0⟩,
      ⟨.voice 0 (.noteOff 60), released, 0, 0⟩]⟩]
    (Timeline.ofBars 120 bars).map (·.tick) = [struck, released] ∧
      parts 120 bars = [[(0, tempoEvent 120), (0, .description (.timeSignature 4 2))],
        [(struck, .voice 0 (.noteOn 60 100)), (released, .voice 0 (.noteOff 60))]] ∧
      ∃ file, ofBars 120 bars = .ok file := by
  intro bars
  let conductor : List (Nat × TrackEvent) :=
    [(0, tempoEvent 120), (0, .description (.timeSignature 4 2))]
  let channel : List (Nat × TrackEvent) :=
    [(struck, .voice 0 (.noteOn 60 100)), (released, .voice 0 (.noteOff 60))]
  have conductorSorted : conductor.mergeSort Track.precedes = conductor :=
    List.mergeSort_of_pairwise (by decide)
  have song : Timeline.ofBars 120 bars =
      [⟨.voice 0 (.noteOn 60 100), struck, 0 + (Clock.start 120).span struck⟩,
        ⟨.voice 0 (.noteOff 60), released, 0 + (Clock.start 120).span released⟩] := by
    have placed : ((Timeline.start 120).add bars).waiting =
        [⟨.voice 0 (.noteOn 60 100), 0 + struck, 0 + (Clock.start 120).span struck⟩,
          ⟨.voice 0 (.noteOff 60), 0 + released, 0 + (Clock.start 120).span released⟩] := rfl
    rw [Nat.zero_add struck, Nat.zero_add released] at placed
    exact Timeline.ofBars_of_waiting placed (by simpa using order)
  have voices : voiced 120 bars 0 = channel := by
    rw [voiced, song]
    rfl
  have meters : meterEvents bars = [(0, .description (meterDescription .common))] := rfl
  have conducts : conducted 120 bars = conductor := by
    rw [conducted, song, meters]
    exact conductorSorted
  have used : usedChannels bars = [0] := by
    rfl
  refine ⟨by rw [song]; rfl, ?_, ?_⟩
  · rw [parts, conducts, used, List.map_singleton, voices]
  · have capacities : bars.map (·.capacity) = [Meter.common.capacity] := rfl
    have ticksFit : Bar.TicksFit bars := by
      refine ⟨by rw [capacities]; decide, fun index bar found event member => ?_⟩
      cases index with
      | zero =>
          cases found
          rcases List.mem_cons.mp member with rfl | last
          · exact Nat.lt_of_le_of_lt ((Nat.zero_add struck).le.trans order) fits
          · obtain rfl := List.mem_singleton.mp last
            exact Nat.lt_of_le_of_lt (Nat.zero_add released).le fits
      | succ index => contradiction
    have timed : (∀ bar ∈ bars, bar.meter.isMeasurable = true) ∧ (Clock.start 120).InWords bars :=
      ⟨List.forall_mem_singleton.mpr rfl,
        (Clock.inWords_start_iff_ticksFit (by decide) (by simp [bars])).mpr ticksFit⟩
    have found : meterChanges? 0 none bars = some (meterEvents bars) :=
      meterChanges?_start_eq_some_iff.mpr ⟨ticksFit.final, rfl⟩
    refine ⟨_, ofBars_eq_ok_iff.mpr ⟨timed, by rw [capacities]; decide, Track.close conductor,
      ?_, rfl⟩⟩
    rw [song, conductorTrack, found, meters]
    exact congrArg (fun timed => Except.ok (Track.close timed)) conductorSorted

/-- What a reader finds by adding up the differences on the tracks of a file.  Every event
comes at its tick in the score or some multiple of `2 ^ 28` ticks too early, and all of them
come at their ticks exactly if no two neighbours on a track, nor the start and the first
event of one, are `2 ^ 28` ticks apart.  This is so whenever no event comes later than a song
may end. -/
theorem recovers_iff_of_ofBars {tempo : UInt16} {bars : List Bar} {file : MidiFile}
    (written : ofBars tempo bars = .ok file) :
    let found := file.tracks.map Track.reduce
    ((∀ bar ∈ bars, ∀ event ∈ bar.events, ∀ content, event.message = .text content →
        (textBytes content).length < 2 ^ 28) →
      (∀ track ∈ file.tracks, (track.eventBytes none).length < 2 ^ 32) →
      read file.bytes = some ⟨1, 960, found⟩) ∧
    List.Forall₂ Track.RecoversModulo (parts tempo bars) found ∧
    (List.Forall₂ Track.Recovers (parts tempo bars) found ↔
      ∀ part ∈ parts tempo bars, ∀ gap ∈ gaps (part.map (·.1)), gap < 2 ^ 28) ∧
    ((∀ event ∈ Timeline.ofBars tempo bars, event.tick ≤ maxTicks) →
      List.Forall₂ Track.Recovers (parts tempo bars) found) := by
  intro found
  have found_eq : found = (parts tempo bars).map Track.close := map_reduce_tracks written
  have whole_iff : List.Forall₂ Track.Recovers (parts tempo bars) found ↔
      ∀ part ∈ parts tempo bars, ∀ gap ∈ gaps (part.map (·.1)), gap < 2 ^ 28 := by
    rw [found_eq, List.forall₂_map_right_iff, List.forall₂_same]
    exact forall₂_congr fun part member =>
      Track.recovers_close_iff (pairwise_of_mem_parts part member)
  refine ⟨fun texts lengths => read_bytes (isWritable_of_ofBars written texts lengths), ?_,
    whole_iff, fun early => whole_iff.mpr ?_⟩
  · rw [found_eq, List.forall₂_map_right_iff, List.forall₂_same]
    exact fun part member => Track.recoversModulo_close (pairwise_of_mem_parts part member)
  · intro part member gap isGap
    rcases exists_le_of_mem_gaps isGap with ⟨tick, inPart, bounded⟩
    have ends := (ofBars_eq_ok_iff.mp written).2.1
    have short := tick_le_of_mem_parts_of_le early ends part member tick inPart
    rw [maxTicks, quantityBits] at short
    omega

/-- Far behind its bar, a note is found where it stands, since no song may be longer. -/
theorem recovers_iff_of_ofBars_far_note :
    let struck : Event := ⟨.voice 0 (.noteOn 60 100), 2 ^ 27, 2 ^ 27 - 1, 0⟩
    let released : Event := ⟨.voice 0 (.noteOff 60), 2 ^ 28 - 1, 0, 0⟩
    let bars : List Bar := [⟨.common, [struck, released]⟩]
    ∃ file, ofBars 120 bars = .ok file ∧
      List.Forall₂ Track.Recovers (parts 120 bars) (file.tracks.map Track.reduce) := by
  intro struck released bars
  have order : 2 ^ 27 ≤ 2 ^ 28 - 1 := by decide
  rcases exists_ofBars_note (2 ^ 27 - 1) order (by decide) with ⟨_, parts_eq, file, written⟩
  rcases recovers_iff_of_ofBars written with ⟨_, _, whole_iff, _⟩
  refine ⟨file, written, whole_iff.mpr ?_⟩
  rw [parts_eq]
  decide

/-- A note that starts `2 ^ 28 + 960` ticks into a song of one bar is accepted, and a reader
finds all of it `2 ^ 28` ticks too early. -/
theorem recovers_fails_far_note :
    let struck : Event := ⟨.voice 0 (.noteOn 60 100), 2 ^ 28 + 960, 960, 0⟩
    let released : Event := ⟨.voice 0 (.noteOff 60), 2 ^ 28 + 1920, 0, 0⟩
    let bars : List Bar := [⟨.common, [struck, released]⟩]
    (Timeline.ofBars 120 bars).map (·.tick) = [2 ^ 28 + 960, 2 ^ 28 + 1920] ∧
      ∃ file, ofBars 120 bars = .ok file ∧
        (file.tracks.map Track.reduce).map (Track.timed 0) =
          [[(0, .description (.tempo 500000)), (0, .description (.timeSignature 4 2)),
              (0, .description .endOfTrack)],
            [(960, .voice 0 (.noteOn 60 100)), (1920, .voice 0 (.noteOff 60)),
              (1920, .description .endOfTrack)]] ∧
        ¬ List.Forall₂ Track.Recovers (parts 120 bars) (file.tracks.map Track.reduce) := by
  intro struck released bars
  have order : 2 ^ 28 + 960 ≤ 2 ^ 28 + 1920 := by decide
  rcases exists_ofBars_note 960 order (by decide) with ⟨ticks, parts_eq, file, written⟩
  have parts_eq : parts 120 bars = _ := parts_eq
  have found_eq : file.tracks.map Track.reduce = _ := map_reduce_tracks written
  rw [← parts, parts_eq] at found_eq
  refine ⟨ticks, file, written, by rw [found_eq]; decide, ?_⟩
  rw [found_eq, parts_eq, List.forall₂_map_right_iff, List.forall₂_same]
  intro whole
  have voices := whole _ (List.mem_cons_of_mem _ List.mem_cons_self)
  exact absurd ((Track.recovers_close_iff (by decide)).mp voices) (by decide)

end MidiScore.MidiFile
