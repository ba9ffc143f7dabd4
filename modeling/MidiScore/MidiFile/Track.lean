import MidiScore.Message.Wire

/-!
# Tracks of a MIDI file

A track is a list of events, each after a number of ticks.  Its bytes write the
ticks as a quantity of variable length, and leave out a status byte that repeats
the status of the voice message before it; any other event in between brings the
status byte back.
-/

namespace MidiScore.MidiFile

-- Powers are those of core, also where algebra is in scope.
attribute [local instance (high)] instPowNat

/-- What a file says about the score. -/
inductive Description where
  /-- Microseconds in a quarter note. -/
  | tempo (micros : Nat)
  /-- Beats in a bar, and the power of two that divides the whole note. -/
  | timeSignature (numerator power : UInt8)
  | keySignature (scale : Scale)
  | text (content : String)
  | endOfTrack
  deriving Repr, DecidableEq

/-- An event of a track. -/
inductive TrackEvent where
  | voice (channel : UInt8) (action : Voice)
  | description (content : Description)
  /-- A byte for the device, given as it is. -/
  | escape (byte : UInt8)
  deriving Repr, DecidableEq

/-- Events, each with the ticks since the event before it. -/
abbrev Track : Type := List (Nat × TrackEvent)

/-- Numbers of variable length keep this many low bits. -/
def quantityBits : Nat := 28

/-- The bytes of a number of variable length: seven bits in each, the high bit set
in all but the last. -/
def quantityBytes (value : Nat) : List UInt8 :=
  let high := [value / 2 ^ (21 : Nat) % 128, value / 2 ^ (14 : Nat) % 128,
    value / 2 ^ (7 : Nat) % 128]
  (high.dropWhile (· == 0)).map (fun group => (128 + group).toUInt8) ++ [(value % 128).toUInt8]

/-- The bytes of a number, highest first. -/
def bigEndian (width value : Nat) : List UInt8 :=
  (List.range width).reverse.map fun place => (value / 256 ^ place % 256).toUInt8

/-- Bytes after their count. -/
def counted (bytes : List UInt8) : List UInt8 :=
  quantityBytes bytes.length ++ bytes

/-- The bytes of a text. -/
def textBytes (content : String) : List UInt8 :=
  content.toUTF8.data.toList

namespace Description

/-- MIDI clocks in a click of the metronome. -/
def clocksPerClick : UInt8 := 24

/-- Thirty-second notes in a quarter note. -/
def thirtySecondsPerQuarter : UInt8 := 8

/-- The number of the kind of description. -/
def kind : Description → UInt8
  | .text _ => 0x01
  | .endOfTrack => 0x2F
  | .tempo _ => 0x51
  | .timeSignature _ _ => 0x58
  | .keySignature _ => 0x59

/-- The content as bytes. -/
def data : Description → List UInt8
  | .text content => textBytes content
  | .endOfTrack => []
  | .tempo micros => bigEndian 3 micros
  | .timeSignature numerator power =>
      [numerator, power, clocksPerClick, thirtySecondsPerQuarter]
  | .keySignature scale => [scale.fifths.toUInt8, if scale.minor then 1 else 0]

end Description

namespace TrackEvent

/-- The bytes of an event after one that left the status `running`, and the status
that it leaves. -/
def bytes (running : Option UInt8) : TrackEvent → List UInt8 × Option UInt8
  | .voice channel action =>
      let status := action.statusByte channel
      if running = some status then (action.dataBytes, running)
      else (status :: action.dataBytes, some status)
  | .description content => (0xFF :: content.kind :: counted content.data, none)
  | .escape byte => (0xF7 :: counted [byte], none)

end TrackEvent

namespace Track

/-- The bytes of events after one that left the status `running`. -/
def eventBytes (running : Option UInt8) : Track → List UInt8
  | [] => []
  | (delta, event) :: rest =>
      let (bytes, next) := event.bytes running
      quantityBytes delta ++ bytes ++ eventBytes next rest

/-- The differences between ticks in order, the first counted from `previous`.  A
tick before its predecessor comes at once. -/
def deltas (previous : Nat) : List (Nat × TrackEvent) → Track
  | [] => []
  | (tick, event) :: rest => ((tick - previous) % 2 ^ quantityBits, event) :: deltas tick rest

/-- Order of events by tick. -/
def precedes (first second : Nat × TrackEvent) : Bool :=
  first.1 ≤ second.1

/-- A closed track of events at ticks, those of one tick in the order they had. -/
def ofTicks (timed : List (Nat × TrackEvent)) : Track :=
  deltas 0 (timed.mergeSort precedes) ++ [(0, .description .endOfTrack)]

end Track

end MidiScore.MidiFile
