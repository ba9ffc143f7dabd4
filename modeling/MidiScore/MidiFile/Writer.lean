import MidiScore.MidiFile.Track
import MidiScore.Timeline

/-!
# MIDI files

A file holds a conductor track with tempos, meters, scales, texts and transport,
and a track for every channel that voice messages use, in order of channel.  The
ticks of a file are those of the score.  A song that is too long for the numbers
of a file, or too slow for a tempo of a file, is refused; bars without a timeline
make no song at all.
-/

namespace MidiScore

-- Powers are those of core, also where algebra is in scope.
attribute [local instance (high)] instPowNat

/-- The tracks of a file, the conductor track first. -/
structure MidiFile where
  tracks : List MidiFile.Track
  deriving Repr, DecidableEq

namespace MidiFile

/-- Why a song does not fit a file. -/
inductive Error where
  /-- The bars have no timeline: one has a meter without capacity, or words do not hold all
  ticks and nanoseconds. -/
  | untimed
  | tooLong (ticks : Nat)
  | tooSlow (bpm : UInt16)
  deriving Repr, DecidableEq

/-- The message for a reader. -/
def Error.message : Error → String
  | .untimed => "SMF error: the bars have no timeline"
  | .tooLong ticks => s!"SMF error: song too long: {ticks} ticks"
  | .tooSlow bpm => s!"SMF error: tempo {bpm.toNat} bpm is too slow for a tempo meta event"

/-- The last tick at which a song may end. -/
def maxTicks : Nat := 2 ^ quantityBits - 1

/-- The slowest tempo in microseconds, a number of three bytes. -/
def maxMicros : Nat := 2 ^ (24 : Nat) - 1

/-- Microseconds in a minute. -/
def microsPerMinute : Nat := 60000000

/-- The description of a tempo. -/
def tempoDescription (bpm : UInt16) : Except Error Description :=
  let micros := microsPerMinute / max 1 bpm.toNat
  if maxMicros < micros then .error (.tooSlow bpm) else .ok (.tempo micros)

/-- How often two divides a number, at most `limit` times. -/
def twos (limit value : Nat) : Nat :=
  match limit with
  | 0 => 0
  | limit + 1 => if value % 2 == 0 then twos limit (value / 2) + 1 else 0

/-- The description of a meter. -/
def meterDescription (meter : Meter) : Description :=
  .timeSignature meter.numerator (twos 8 meter.denominator.toNat).toUInt8

/-- The meters of bars from a tick on, where they differ from the bar before.  The ticks are
counted in words. -/
def meterChanges? (tick : UInt32) (previous : Option Meter) :
    List Bar → Option (List (Nat × TrackEvent))
  | [] => some []
  | bar :: rest => do
      let next ← word? (tick.toNat + bar.capacity)
      let later ← meterChanges? next (some bar.meter) rest
      if previous = some bar.meter then return later
      else return (tick.toNat, .description (meterDescription bar.meter)) :: later

/-- What a message contributes to the conductor track. -/
def conductorEvent : Message → Except Error (Option TrackEvent)
  | .voice _ _ => .ok none
  | .start => .ok (some (.escape Message.startByte))
  | .stop => .ok (some (.escape Message.stopByte))
  | .tempo bpm => (tempoDescription bpm).map fun content => some (.description content)
  | .keySignature _ scale => .ok (some (.description (.keySignature scale)))
  | .text content => .ok (some (.description (.text content)))

/-- The contributions of events to the conductor track. -/
def conductorEvents : List TimedEvent → Except Error (List (Nat × TrackEvent))
  | [] => .ok []
  | event :: rest => do
      let first ← conductorEvent event.message
      let later ← conductorEvents rest
      return (first.map (event.tick, ·)).toList ++ later

/-- The conductor track of a song. -/
def conductorTrack (tempo : UInt16) (bars : List Bar) (events : List TimedEvent) :
    Except Error Track := do
  let initial ← tempoDescription tempo
  match meterChanges? 0 none bars with
  | none => throw .untimed
  | some meters =>
      let messages ← conductorEvents events
      return Track.ofTicks ((0, .description initial) :: (meters ++ messages))

/-- What an event contributes to the track of a channel. -/
def channelEvent (channel : UInt8) (event : TimedEvent) : Option (Nat × TrackEvent) :=
  match event.message with
  | .voice number action =>
      if Voice.channelNibble number = channel then some (event.tick, .voice channel action)
      else none
  | _ => none

/-- The tracks of the channels in use, in order of channel. -/
def channelTracks (events : List TimedEvent) : List Track :=
  (List.range 16).filterMap fun channel =>
    match events.filterMap (channelEvent channel.toUInt8) with
    | [] => none
    | timed => some (Track.ofTicks timed)

/-- The file of bars played from a tempo. -/
def ofBars (tempo : UInt16) (bars : List Bar) : Except Error MidiFile := do
  match (Timeline.start tempo).add? bars with
  | none => throw .untimed
  | some timeline =>
      if maxTicks < timeline.clock.tick then
        throw (.tooLong timeline.clock.tick)
      let events := timeline.flush.1
      let conductor ← conductorTrack tempo bars events
      return ⟨conductor :: channelTracks events⟩

/-- A chunk: four letters, the number of bytes, and the bytes. -/
def chunk (name : String) (content : List UInt8) : List UInt8 :=
  textBytes name ++ bigEndian 4 content.length ++ content

/-- The bytes of a file: a header that says how many tracks there are, all played
together, on the tick grid of the score; then the tracks. -/
def bytes (file : MidiFile) : List UInt8 :=
  let header := bigEndian 2 1 ++ bigEndian 2 file.tracks.length ++ bigEndian 2 ticksPerQuarter
  chunk "MThd" header ++
    file.tracks.flatMap fun track => chunk "MTrk" (track.eventBytes none)

end MidiFile

/-- Why a score does not become a file. -/
inductive ExportError where
  | score (error : Error)
  | file (error : MidiFile.Error)
  deriving Repr, DecidableEq

/-- The message for a reader. -/
def ExportError.message : ExportError → String
  | .score error => error.message
  | .file error => error.message

/-- The file of a score in a session of its own. -/
def exportFile (config : Config) (declarations : List Declaration) :
    Except ExportError MidiFile := do
  let bars ← (compile config declarations).mapError .score
  (MidiFile.ofBars config.tempo bars).mapError .file

end MidiScore
