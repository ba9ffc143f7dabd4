import MidiScore.Message

/-!
# Wire bytes

A voice message is a status byte, which carries the channel in its low half, and
one or two data bytes below 128.  Numbers that are too large keep their low bits.
A transport message is a single byte.
-/

namespace MidiScore

namespace Voice

/-- The high half of the status byte. -/
def status : Voice → UInt8
  | .noteOff _ => 0x80
  | .noteOn _ _ => 0x90
  | .controlChange _ _ => 0xB0
  | .programChange _ => 0xC0

/-- The seven low bits, all that fits a data byte. -/
def dataByte (value : UInt8) : UInt8 :=
  value &&& 0x7F

/-- The bytes after the status byte.  A note is released at velocity zero. -/
def dataBytes : Voice → List UInt8
  | .noteOff key => [dataByte key, 0]
  | .noteOn key velocity => [dataByte key, dataByte velocity]
  | .controlChange control value => [dataByte control, dataByte value]
  | .programChange program => [dataByte program]

/-- The four low bits of a channel, all that fits a status byte. -/
def channelNibble (channel : UInt8) : UInt8 :=
  channel &&& 0x0F

/-- The status byte on a channel. -/
def statusByte (channel : UInt8) (voice : Voice) : UInt8 :=
  voice.status ||| channelNibble channel

end Voice

namespace Message

/-- The byte that starts a device. -/
def startByte : UInt8 := 0xFA

/-- The byte that stops a device. -/
def stopByte : UInt8 := 0xFC

/-- The bytes of a playable message. -/
def bytes? : Message → Option (List UInt8)
  | .voice channel action => some (action.statusByte channel :: action.dataBytes)
  | .start => some [startByte]
  | .stop => some [stopByte]
  | .tempo _ | .keySignature _ _ | .text _ => none

theorem isSome_bytes? (message : Message) : message.bytes?.isSome = message.isPlayable := by
  cases message <;> rfl

end Message

end MidiScore
