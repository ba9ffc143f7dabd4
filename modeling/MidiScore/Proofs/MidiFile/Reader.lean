import Mathlib.Tactic.Ring
import MidiScore.MidiFile.Reader
import MidiScore.Proofs.Message.Wire

/-!
# What a reader makes of a written file

Each part of a file is read in front of any bytes: numbers, counted bytes, events, chunks.
Numbers keep the bits that their bytes hold, ticks those of a number of variable length.
The status byte that the writer leaves out is the one that the reader has in force.  So a
whole file is read back, `read_bytes`, provided that its texts and tracks can be counted.
-/

namespace MidiScore.MidiFile

/-! ## Numbers -/

theorem take?_append (front rest : List UInt8) :
    take? front.length (front ++ rest) = some (front, rest) := by
  simp [take?]

@[simp]
theorem length_bigEndian (width value : Nat) : (bigEndian width value).length = width := by
  simp [bigEndian]

theorem take?_bigEndian_append (width value : Nat) (rest : List UInt8) :
    take? width (bigEndian width value ++ rest) = some (bigEndian width value, rest) := by
  have taken := take?_append (bigEndian width value) rest
  rwa [length_bigEndian] at taken

theorem bigEndian_succ (width value : Nat) :
    bigEndian (width + 1) value =
      (value / 256 ^ width % 256).toUInt8 :: bigEndian width value := by
  simp [bigEndian, List.range_succ]

theorem foldl_bigEndian (high width value : Nat) :
    (bigEndian width value).foldl (fun value byte => value * 256 + byte.toNat) high =
      high * 256 ^ width + value % 256 ^ width := by
  induction width generalizing high with
  | zero => simp [bigEndian, Nat.mod_one]
  | succ width ih =>
      have digit : ((value / 256 ^ width % 256).toUInt8).toNat = value / 256 ^ width % 256 :=
        Nat.mod_eq_of_lt (Nat.mod_lt _ (by decide))
      rw [bigEndian_succ, List.foldl_cons, ih, digit, Nat.mod_pow_succ]
      ring

/-- A number is read back from its bytes up to their width. -/
theorem ofBigEndian_bigEndian (width value : Nat) :
    ofBigEndian (bigEndian width value) = value % 256 ^ width := by
  rw [ofBigEndian, foldl_bigEndian, Nat.zero_mul, Nat.zero_add]

/-- The number that groups of seven bits write after `high`. -/
def ofGroups (high : Nat) (groups : List Nat) : Nat :=
  groups.foldl (fun value group => value * 128 + group) high

theorem ofGroups_dropWhile (groups : List Nat) :
    ofGroups 0 (groups.dropWhile (· == 0)) = ofGroups 0 groups := by
  induction groups with
  | nil => rfl
  | cons group rest ih =>
      rw [List.dropWhile_cons]
      split
      · rename_i zero
        rw [ih, ofGroups, ofGroups, List.foldl_cons, beq_iff_eq.mp zero]
      · rfl

/-- Groups are read as long as their high bit is set, and then one more. -/
theorem readQuantity_append {groups : List Nat} {limit low : Nat} (high : Nat)
    (small : ∀ group ∈ groups, group < 128) (smallLow : low < 128)
    (within : groups.length < limit) (rest : List UInt8) :
    readQuantity high limit
        (groups.map (fun group => (128 + group).toUInt8) ++ [low.toUInt8] ++ rest) =
      some (ofGroups high groups * 128 + low, rest) := by
  induction groups generalizing high limit with
  | nil =>
      cases limit with
      | zero => contradiction
      | succ limit =>
          have lowByte : low.toUInt8.toNat = low := Nat.mod_eq_of_lt (by omega)
          have last : low.toUInt8 < 0x80 := by
            rw [UInt8.lt_iff_toNat_lt, lowByte]
            exact smallLow
          simp [readQuantity, last, lowByte, ofGroups]
  | cons group others ih =>
      rcases List.forall_mem_cons.mp small with ⟨smallHere, smallLater⟩
      cases limit with
      | zero => contradiction
      | succ limit =>
          have byte : ((128 + group).toUInt8).toNat = 128 + group :=
            Nat.mod_eq_of_lt (by omega)
          have more : ¬ (128 + group).toUInt8 < 0x80 := by
            rw [UInt8.lt_iff_toNat_lt, byte]
            exact Nat.not_lt.mpr (Nat.le_add_right 128 group)
          have bits : (128 + group) % 128 = group := by omega
          rw [List.map_cons, List.cons_append, List.cons_append, readQuantity, if_neg more, byte,
            bits, ih _ smallLater (Nat.lt_of_succ_lt_succ within)]
          rfl

/-- A number of variable length is read back up to the bits that it keeps. -/
theorem readQuantity_quantityBytes (value : Nat) (rest : List UInt8) :
    readQuantity 0 quantityLimit (quantityBytes value ++ rest) =
      some (value % 2 ^ quantityBits, rest) := by
  let groups := [value / 2 ^ 21 % 128, value / 2 ^ 14 % 128, value / 2 ^ 7 % 128]
  have written : (groups.dropWhile (· == 0)).Sublist groups := List.dropWhile_sublist _
  have small : ∀ group ∈ groups, group < 128 := by
    simp [groups, Nat.mod_lt]
  have within : (groups.dropWhile (· == 0)).length < quantityLimit :=
    Nat.lt_succ_of_le written.length_le
  have kept : ofGroups 0 groups * 128 + value % 128 = value % 2 ^ quantityBits := by
    simp only [ofGroups, groups, List.foldl_cons, List.foldl_nil, quantityBits]
    omega
  rw [quantityBytes, readQuantity_append 0 (fun group member => small group (written.mem member))
    (Nat.mod_lt _ (by decide)) within, ofGroups_dropWhile, kept]

theorem readCounted_counted {bytes : List UInt8} (short : bytes.length < 2 ^ quantityBits)
    (rest : List UInt8) : readCounted (counted bytes ++ rest) = some (bytes, rest) := by
  rw [readCounted, counted, List.append_assoc, readQuantity_quantityBytes,
    Nat.mod_eq_of_lt short]
  exact take?_append bytes rest

/-! ## Events -/

/-- The content has a number of bytes that can be counted, and its number fits them. -/
def Description.IsWritable : Description → Prop
  | .tempo micros => micros ≤ maxMicros
  | .text content => (textBytes content).length < 2 ^ quantityBits
  | .timeSignature _ _ | .keySignature _ | .endOfTrack => True

namespace Description

theorem length_data_lt {content : Description} (writable : content.IsWritable) :
    content.data.length < 2 ^ quantityBits := by
  cases content with
  | text content => exact writable
  | _ => simp [data, quantityBits]

theorem fromUTF8?_textBytes (content : String) :
    String.fromUTF8? ⟨(textBytes content).toArray⟩ = some content :=
  dif_pos content.isValidUTF8

theorem ofData?_data {content : Description} (writable : content.IsWritable) :
    ofData? content.kind content.data = some content := by
  cases content with
  | tempo micros =>
      have kept : micros % 256 ^ 3 = micros := Nat.mod_eq_of_lt (Nat.lt_succ_of_le writable)
      have read : ofBigEndian (bigEndian 3 micros) = micros := by
        rw [ofBigEndian_bigEndian, kept]
      exact congrArg (fun micros => some (Description.tempo micros)) read
  | timeSignature numerator power => rfl
  | keySignature scale =>
      rcases scale with ⟨fifths, _ | _⟩ <;> simp [ofData?, kind, data]
  | text content => exact congrArg (Option.map Description.text) (fromUTF8?_textBytes content)
  | endOfTrack => rfl

end Description

namespace TrackEvent

/-- What the event says of the score is writable. -/
def IsWritable : TrackEvent → Prop
  | .description content => content.IsWritable
  | .voice _ _ | .escape _ => True

/-- The event with the bits of its numbers that fit the bytes of a voice message. -/
def reduce : TrackEvent → TrackEvent
  | .voice channel action => .voice (Voice.channelNibble channel) action.reduce
  | other => other

section

variable (running : Option UInt8) (rest : List UInt8)

theorem read_data {first : UInt8} (small : first < 0x80) :
    read running (first :: rest) =
      running.bind fun status => readVoice status (first :: rest) := by
  unfold read
  exact if_pos small

theorem read_status {status : UInt8} (least : 0x80 ≤ status.toNat) (bound : status.toNat < 0xF0) :
    read running (status :: rest) = readVoice status rest := by
  have notData : ¬ status < 0x80 := by
    rw [UInt8.lt_iff_toNat_lt]
    exact Nat.not_lt.mpr least
  have notDescription : status ≠ 0xFF := by
    rintro rfl
    contradiction
  have notEscape : status ≠ 0xF7 := by
    rintro rfl
    contradiction
  unfold read
  simp only [notData, notDescription, notEscape, if_false]

theorem read_description (kind : UInt8) :
    read running (0xFF :: kind :: rest) = (do
      let (data, rest) ← readCounted rest
      let content ← Description.ofData? kind data
      return (.description content, none, rest)) :=
  rfl

theorem read_escape {byte : UInt8} {after : List UInt8}
    (data : readCounted rest = some ([byte], after)) :
    read running (0xF7 :: rest) = some (.escape byte, none, after) := by
  unfold read
  simp [data]

end

theorem readVoice_dataBytes (channel : UInt8) (action : Voice) (rest : List UInt8) :
    readVoice (action.statusByte channel) (action.dataBytes ++ rest) =
      some (reduce (.voice channel action), some (action.statusByte channel), rest) := by
  rw [readVoice, Voice.read_dataBytes, Voice.channelNibble_statusByte]
  rfl

/-- An event is read in the state in which it was written, and leaves the state that it
left in writing. -/
theorem read_bytes {event : TrackEvent} (writable : event.IsWritable) (running : Option UInt8)
    (rest : List UInt8) :
    read running ((event.bytes running).1 ++ rest) =
      some (event.reduce, (event.bytes running).2, rest) := by
  cases event with
  | voice channel action =>
      have data := readVoice_dataBytes channel action rest
      rw [bytes]
      split
      · rename_i same
        subst same
        obtain ⟨first, others, dataBytes_eq⟩ :=
          List.exists_cons_of_ne_nil action.dataBytes_ne_nil
        have small : first < 0x80 := action.dataBytes_lt first (by simp [dataBytes_eq])
        rw [dataBytes_eq] at data ⊢
        rw [List.cons_append] at data ⊢
        rw [read_data _ _ small]
        exact data
      · have least := action.le_statusByte channel
        have bound := action.statusByte_lt channel
        rw [List.cons_append, read_status _ _ least (by omega)]
        exact data
  | description content =>
      have counted := readCounted_counted (Description.length_data_lt writable) rest
      rw [bytes, List.cons_append, List.cons_append, read_description, counted]
      simp only [Option.bind_eq_bind, Option.bind_some, Description.ofData?_data writable]
      rfl
  | escape byte =>
      have short : [byte].length < 2 ^ quantityBits := by simp [quantityBits]
      exact read_escape running _ (readCounted_counted short rest)

end TrackEvent

namespace Track

/-- The track with the bits of its numbers that fit their bytes. -/
def reduce (track : Track) : Track :=
  track.map fun (delta, event) => (delta % 2 ^ quantityBits, event.reduce)

theorem readEvent_append {event : TrackEvent} (writable : event.IsWritable)
    (running : Option UInt8) (delta : Nat) (rest : List UInt8) :
    readEvent running (quantityBytes delta ++ (event.bytes running).1 ++ rest) =
      some ((delta % 2 ^ quantityBits, event.reduce), (event.bytes running).2, rest) := by
  rw [readEvent, List.append_assoc, readQuantity_quantityBytes]
  simp only [Option.bind_eq_bind, Option.bind_some, TrackEvent.read_bytes writable]
  rfl

/-- The bytes of a track are read event by event. -/
theorem readAll_eventBytes {track : Track} (writable : ∀ entry ∈ track, entry.2.IsWritable)
    (running : Option UInt8) :
    Bytes.readAll readEvent running (track.eventBytes running) = some track.reduce := by
  induction track generalizing running with
  | nil => exact Bytes.readAll_nil
  | cons entry rest ih =>
      rcases entry with ⟨delta, event⟩
      rcases List.forall_mem_cons.mp writable with ⟨writableHere, writableLater⟩
      have nonempty : quantityBytes delta ++ (event.bytes running).1 ≠ [] := by
        simp [quantityBytes]
      rw [eventBytes, Bytes.readAll_append nonempty (readEvent_append writableHere running delta _),
        ih writableLater]
      rfl

end Track

/-! ## Chunks -/

/-- What the numbers of a file can count: its tracks, the bytes of each of them, and what
stands in them. -/
structure IsWritable (file : MidiFile) : Prop where
  count : file.tracks.length < 2 ^ 16
  length : ∀ track ∈ file.tracks, (track.eventBytes none).length < 2 ^ 32
  events : ∀ track ∈ file.tracks, ∀ entry ∈ track, entry.2.IsWritable

theorem readChunk_chunk (name : String) {content : List UInt8}
    (letters : (textBytes name).length = 4) (short : content.length < 2 ^ 32)
    (rest : List UInt8) : readChunk name (chunk name content ++ rest) = some (content, rest) := by
  have length : ofBigEndian (bigEndian 4 content.length) = content.length := by
    rw [ofBigEndian_bigEndian]
    exact Nat.mod_eq_of_lt short
  have named : take? 4 (textBytes name ++ (bigEndian 4 content.length ++ (content ++ rest))) =
      some (textBytes name, bigEndian 4 content.length ++ (content ++ rest)) := by
    rw [← letters]
    exact take?_append _ _
  rw [readChunk, chunk, List.append_assoc, List.append_assoc, named]
  simp only [Option.bind_eq_bind, Option.bind_some, take?_bigEndian_append, if_true, length,
    take?_append]

theorem readTracks_flatMap {tracks : List Track}
    (length : ∀ track ∈ tracks, (track.eventBytes none).length < 2 ^ 32)
    (events : ∀ track ∈ tracks, ∀ entry ∈ track, entry.2.IsWritable) :
    readTracks tracks.length
        (tracks.flatMap fun track => chunk "MTrk" (track.eventBytes none)) =
      some (tracks.map Track.reduce) := by
  induction tracks with
  | nil => rfl
  | cons track rest ih =>
      rcases List.forall_mem_cons.mp length with ⟨lengthHere, lengthLater⟩
      rcases List.forall_mem_cons.mp events with ⟨eventsHere, eventsLater⟩
      have first := readChunk_chunk "MTrk" rfl lengthHere
        (rest.flatMap fun track => chunk "MTrk" (track.eventBytes none))
      rw [List.length_cons, List.flatMap_cons, readTracks, first]
      simp only [Option.bind_eq_bind, Option.bind_some, Track.readAll_eventBytes eventsHere,
        ih lengthLater eventsLater]
      rfl

/-- A file is read back from its bytes, all of them. -/
theorem read_bytes {file : MidiFile} (writable : file.IsWritable) :
    read file.bytes = some ⟨1, ticksPerQuarter, file.tracks.map Track.reduce⟩ := by
  have count : file.tracks.length % 256 ^ 2 = file.tracks.length :=
    Nat.mod_eq_of_lt writable.count
  have division : take? 2 (bigEndian 2 ticksPerQuarter) =
      some (bigEndian 2 ticksPerQuarter, []) := rfl
  rw [read, bytes, readChunk_chunk "MThd" rfl (by simp)]
  simp only [Option.bind_eq_bind, Option.bind_some, List.append_assoc, take?_bigEndian_append,
    division, ofBigEndian_bigEndian, count, readTracks_flatMap writable.length writable.events]
  rfl

end MidiScore.MidiFile
