import MidiScore.Datum.Fields
import MidiScore.Message

/-!
# Exchanging messages

A message is a record with a single name that says what happens.  `start` and
`stop` take nothing and are texts.
-/

namespace MidiScore

open Datum (Reading bare readBool readInt8 readText readThree readTwo readUInt8 readUInt16 required)

namespace Message

/-- The message of a name that takes nothing. -/
def ofName? : String → Option Message
  | "start" => some .start
  | "stop" => some .stop
  | _ => none

/-- A number as a datum. -/
def byteDatum (value : UInt8) : Datum := .integer value.toNat

/-- Write a message. -/
def toDatum : Message → Datum
  | .voice channel action =>
      let channelField := ("channel", byteDatum channel)
      match action with
      | .noteOn key velocity =>
          .single "note_on" (.ofFields
            [channelField, ("key", byteDatum key), ("velocity", byteDatum velocity)])
      | .noteOff key => .single "note_off" (.ofFields [channelField, ("key", byteDatum key)])
      | .programChange program =>
          .single "program_change" (.ofFields [channelField, ("program", byteDatum program)])
      | .controlChange control value =>
          .single "control_change" (.ofFields
            [channelField, ("control", byteDatum control), ("value", byteDatum value)])
  | .start => .text "start"
  | .stop => .text "stop"
  | .tempo bpm => .single "tempo" (.integer bpm.toNat)
  | .keySignature channel scale =>
      .single "key_signature" (.ofFields
        [("channel", byteDatum channel), ("fifths", .integer scale.fifths.toInt),
          ("minor", .truth scale.minor)])
  | .text content => .single "text" (.text content)

/-- Read what a message says. -/
def ofContent (name : String) (content : Datum) : Reading Message := do
  match name with
  | "note_on" =>
      let (channel, key, velocity) ←
        readThree "channel" readUInt8 "key" readUInt8 "velocity" readUInt8 content
      return .voice channel (.noteOn key velocity)
  | "note_off" =>
      let (channel, key) ← readTwo "channel" readUInt8 "key" readUInt8 content
      return .voice channel (.noteOff key)
  | "program_change" =>
      let (channel, program) ← readTwo "channel" readUInt8 "program" readUInt8 content
      return .voice channel (.programChange program)
  | "control_change" =>
      let (channel, control, value) ←
        readThree "channel" readUInt8 "control" readUInt8 "value" readUInt8 content
      return .voice channel (.controlChange control value)
  | "tempo" => return .tempo (← readUInt16 content)
  | "key_signature" =>
      let (channel, fifths, minor) ←
        readThree "channel" readUInt8 "fifths" readInt8 "minor" readBool content
      return .keySignature channel ⟨fifths, minor⟩
  | "text" => return .text (← readText content)
  | name => bare (ofName? name) content

/-- Read a message. -/
def ofDatum : Datum → Reading Message
  | .text name => required (ofName? name)
  | .record [(name, content)] => do ofContent (← readText name) content
  | _ => throw .malformed

end Message

end MidiScore
