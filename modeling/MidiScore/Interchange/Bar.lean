import MidiScore.Interchange.Message
import MidiScore.Timeline

/-!
# Exchanging bars

Bars with their events, and timed events.  The meter of a bar is a list of its two
numbers.
-/

namespace MidiScore

open Datum (Reading once readInt64 readList readNat32 readThree readTwo readUInt8 required)

namespace Meter

/-- Write a meter. -/
def toDatum (meter : Meter) : Datum :=
  .list [.integer meter.numerator.toNat, .integer meter.denominator.toNat]

/-- Read a meter. -/
def ofDatum : Datum → Reading Meter
  | .list [numerator, denominator] => do
      return ⟨← readUInt8 numerator, ← readUInt8 denominator⟩
  | _ => throw .malformed

end Meter

namespace Event

/-- Write an event. -/
def toDatum (event : Event) : Datum :=
  .ofFields
    [ ("message", event.message.toDatum),
      ("position", .integer event.position),
      ("duration", .integer event.duration),
      ("channel", .integer event.channel.toNat) ]

/-- The fields of an event that were read so far. -/
structure Parts where
  message : Option Message
  position : Option Nat
  duration : Option Nat
  channel : Option UInt8

/-- Read one field of an event. -/
def Parts.take (parts : Parts) (name : String) (value : Datum) : Reading Parts := do
  match name with
  | "message" => return { parts with message := ← once parts.message (Message.ofDatum value) }
  | "position" => return { parts with position := ← once parts.position (readNat32 value) }
  | "duration" => return { parts with duration := ← once parts.duration (readNat32 value) }
  | "channel" => return { parts with channel := ← once parts.channel (readUInt8 value) }
  | _ =>
      value.ignore
      return parts

/-- Read an event. -/
def ofDatum (datum : Datum) : Reading Event := do
  let parts ← datum.foldFields Parts.take ⟨none, none, none, none⟩
  return {
    message := ← required parts.message
    position := ← required parts.position
    duration := ← required parts.duration
    channel := ← required parts.channel }

end Event

namespace Bar

/-- Write a bar. -/
def toDatum (bar : Bar) : Datum :=
  .ofFields
    [("timeSignature", bar.meter.toDatum), ("events", .list (bar.events.map Event.toDatum))]

/-- Read a bar. -/
def ofDatum (datum : Datum) : Reading Bar := do
  let (meter, events) ←
    readTwo "timeSignature" Meter.ofDatum "events" (readList Event.ofDatum) datum
  return ⟨meter, events⟩

end Bar

namespace TimedEvent

/-- Write a timed event. -/
def toDatum (event : TimedEvent) : Datum :=
  .ofFields
    [ ("message", event.message.toDatum),
      ("absoluteTicks", .integer event.tick),
      ("absoluteNanoseconds", .integer event.nanos) ]

/-- Read a timed event. -/
def ofDatum (datum : Datum) : Reading TimedEvent := do
  let (message, tick, nanos) ←
    readThree "message" Message.ofDatum "absoluteTicks" readNat32
      "absoluteNanoseconds" readInt64 datum
  return ⟨message, tick, nanos⟩

end TimedEvent

end MidiScore
