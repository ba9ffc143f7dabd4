import MidiScore.Message.Reader
import MidiScore.MidiFile.Writer

/-!
# Reading MIDI files

A file is a header and as many tracks as the header says, each a chunk with its length,
and nothing behind them.  A track is read event by event: the ticks since the event
before, and then what the status byte in force announces.  A voice message without a
status byte takes that of the voice message before it, unless another event stands in
between.  What a score never says in a file is refused.
-/

namespace MidiScore.MidiFile

/-- What a file says. -/
structure Contents where
  /-- How the tracks relate: format 1 plays all of them together. -/
  format : Nat
  /-- Ticks in a quarter note. -/
  division : Nat
  tracks : List Track
  deriving Repr, DecidableEq

/-- The first `count` bytes, and the bytes after them. -/
def take? (count : Nat) (bytes : List UInt8) : Option (List UInt8 × List UInt8) :=
  if count ≤ bytes.length then some (bytes.take count, bytes.drop count) else none

/-- The number that bytes write, highest first. -/
def ofBigEndian (bytes : List UInt8) : Nat :=
  bytes.foldl (fun value byte => value * 256 + byte.toNat) 0

/-- A number of variable length in at most `limit` bytes, `high` being the number that was
read in front of them. -/
def readQuantity (high : Nat) : (limit : Nat) → List UInt8 → Option (Nat × List UInt8)
  | 0, _ | _ + 1, [] => none
  | limit + 1, byte :: rest =>
      if byte < 0x80 then some (high * 128 + byte.toNat, rest)
      else readQuantity (high * 128 + byte.toNat % 128) limit rest

/-- The most bytes that a number of variable length takes. -/
def quantityLimit : Nat := 4

/-- Bytes after their count. -/
def readCounted (bytes : List UInt8) : Option (List UInt8 × List UInt8) := do
  let (count, rest) ← readQuantity 0 quantityLimit bytes
  take? count rest

/-- What the data of a kind of description say. -/
def Description.ofData? (kind : UInt8) (data : List UInt8) : Option Description :=
  match kind.toNat, data with
  | 0x01, _ => (String.fromUTF8? ⟨data.toArray⟩).map .text
  | 0x2F, [] => some .endOfTrack
  | 0x51, [_, _, _] => some (.tempo (ofBigEndian data))
  | 0x58, [numerator, power, clocks, thirtySeconds] =>
      if clocks = clocksPerClick ∧ thirtySeconds = thirtySecondsPerQuarter then
        some (.timeSignature numerator power)
      else none
  | 0x59, [fifths, mode] =>
      if mode ≤ 1 then some (.keySignature ⟨fifths.toInt8, mode == 1⟩) else none
  | _, _ => none

namespace TrackEvent

/-- A voice message under a status byte, which stays in force. -/
def readVoice (status : UInt8) (bytes : List UInt8) :
    Option (TrackEvent × Option UInt8 × List UInt8) := do
  let (action, rest) ← Voice.read status bytes
  return (.voice (Voice.channelNibble status) action, some status, rest)

/-- The first event of some bytes, the status that it leaves, and the bytes after it. -/
def read (running : Option UInt8) : List UInt8 →
    Option (TrackEvent × Option UInt8 × List UInt8)
  | [] => none
  | first :: rest =>
      if first < 0x80 then running.bind fun status => readVoice status (first :: rest)
      else if first = 0xFF then
        match rest with
        | [] => none
        | kind :: rest => do
            let (data, rest) ← readCounted rest
            let content ← Description.ofData? kind data
            return (.description content, none, rest)
      else if first = 0xF7 then do
        match ← readCounted rest with
        | ([byte], rest) => return (.escape byte, none, rest)
        | _ => none
      else readVoice first rest

end TrackEvent

/-- The first event of a track with its ticks, the status that it leaves, and the bytes
after it. -/
def Track.readEvent (running : Option UInt8) (bytes : List UInt8) :
    Option ((Nat × TrackEvent) × Option UInt8 × List UInt8) := do
  let (delta, rest) ← readQuantity 0 quantityLimit bytes
  let (event, next, rest) ← TrackEvent.read running rest
  return ((delta, event), next, rest)

/-- The content of the chunk that comes first, provided that it has the name, and the bytes
after it. -/
def readChunk (name : String) (bytes : List UInt8) : Option (List UInt8 × List UInt8) := do
  let (letters, rest) ← take? 4 bytes
  let (length, rest) ← take? 4 rest
  if letters = textBytes name then take? (ofBigEndian length) rest else none

/-- As many tracks as are announced, with no byte behind them. -/
def readTracks : (count : Nat) → List UInt8 → Option (List Track)
  | 0, [] => some []
  | 0, _ :: _ => none
  | count + 1, bytes => do
      let (content, rest) ← readChunk "MTrk" bytes
      let track ← Bytes.readAll Track.readEvent none content
      let others ← readTracks count rest
      return track :: others

/-- A whole file. -/
def read (bytes : List UInt8) : Option Contents := do
  let (header, rest) ← readChunk "MThd" bytes
  let (format, header) ← take? 2 header
  let (count, header) ← take? 2 header
  let (division, header) ← take? 2 header
  if header.isEmpty then
    return ⟨ofBigEndian format, ofBigEndian division, ← readTracks (ofBigEndian count) rest⟩
  else none

end MidiScore.MidiFile
