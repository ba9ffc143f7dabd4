import MidiScore.Scale
import MidiScore.Text.Quoted

/-!
# Messages

What an event says.  Voice messages act on a channel, transport messages on the
whole device; both go to an output port.  The other messages describe the score
and never reach a port.
-/

namespace MidiScore

/-- What happens on one channel. -/
inductive Voice where
  | noteOn (key velocity : UInt8)
  | noteOff (key : UInt8)
  | programChange (program : UInt8)
  | controlChange (control value : UInt8)
  deriving Repr, DecidableEq

/-- A message of a score. -/
inductive Message where
  | voice (channel : UInt8) (action : Voice)
  | start
  | stop
  /-- Quarter notes per minute. -/
  | tempo (bpm : UInt16)
  | keySignature (channel : UInt8) (scale : Scale)
  | text (content : String)
  deriving Repr, DecidableEq

namespace Message

/-- Whether the message goes to an output port. -/
def isPlayable : Message → Bool
  | .voice _ _ | .start | .stop => true
  | .tempo _ | .keySignature _ _ | .text _ => false

/-- The tempo that the message sets. -/
def tempo? : Message → Option UInt16
  | .tempo bpm => some bpm
  | _ => none

/-- The message for a reader. -/
def render : Message → String
  | .voice channel (.noteOn key velocity) =>
      s!"NoteOn channel: {channel.toNat} key: {key.toNat} velocity: {velocity.toNat}"
  | .voice channel (.noteOff key) => s!"NoteOff channel: {channel.toNat} key: {key.toNat}"
  | .voice channel (.programChange program) =>
      s!"ProgramChange channel: {channel.toNat} program: {program.toNat}"
  | .voice channel (.controlChange control value) =>
      s!"ControlChange channel: {channel.toNat} controller: {control.toNat} value: {value.toNat}"
  | .start => "Start"
  | .stop => "Stop"
  | .tempo bpm => s!"MetaTempo bpm: {bpm.toNat}"
  | .keySignature channel scale =>
      let mode := if scale.minor then "minor" else "major"
      s!"MetaKeySig channel: {channel.toNat} fifths: {scale.fifths.toInt} {mode}"
  | .text content => s!"MetaText text: {Text.quote content}"

end Message

end MidiScore
