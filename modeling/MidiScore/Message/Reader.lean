import MidiScore.Message.Wire

/-!
# Reading wire bytes

A stream of bytes is cut where its status bytes say so: each is followed by a fixed
number of data bytes below 128.  A stream that ends in the middle of a message, or says
what no message of a score says, is refused.
-/

namespace MidiScore

namespace Bytes

/-- Items read one after another until no byte is left.  What is read of an item may
change the state in which the next one is read; an item without bytes is refused. -/
def readAll {σ α : Type} (read : σ → List UInt8 → Option (α × σ × List UInt8)) (state : σ)
    (bytes : List UInt8) : Option (List α) :=
  match bytes with
  | [] => some []
  | first :: others =>
      match read state (first :: others) with
      | none => none
      | some (item, next, rest) =>
          if rest.length ≤ others.length then (readAll read next rest).map (item :: ·)
          else none
termination_by bytes.length

/-- The first `count` bytes if all of them are data, and the bytes after them. -/
def readData : (count : Nat) → List UInt8 → Option (List UInt8 × List UInt8)
  | 0, bytes => some ([], bytes)
  | _ + 1, [] => none
  | count + 1, byte :: rest =>
      if byte < 0x80 then (readData count rest).map fun (data, rest) => (byte :: data, rest)
      else none

end Bytes

namespace Voice

/-- How many data bytes follow a status byte of a voice. -/
def dataCount (status : UInt8) : Nat :=
  if status.toNat / 16 = 0xC ∨ status.toNat / 16 = 0xD then 1 else 2

/-- What data bytes say after a status byte.  No message of a score releases a note at a
velocity. -/
def ofData? (status : UInt8) (data : List UInt8) : Option Voice :=
  match status.toNat / 16, data with
  | 0x8, [key, 0] => some (.noteOff key)
  | 0x9, [key, velocity] => some (.noteOn key velocity)
  | 0xB, [control, value] => some (.controlChange control value)
  | 0xC, [program] => some (.programChange program)
  | _, _ => none

/-- The action that follows a status byte. -/
def read (status : UInt8) (bytes : List UInt8) : Option (Voice × List UInt8) := do
  let (data, rest) ← Bytes.readData (dataCount status) bytes
  let action ← ofData? status data
  return (action, rest)

end Voice

namespace Message

/-- The first message of a stream. -/
def read : List UInt8 → Option (Message × List UInt8)
  | [] => none
  | status :: rest =>
      if status = startByte then some (.start, rest)
      else if status = stopByte then some (.stop, rest)
      else do
        let (action, rest) ← Voice.read status rest
        return (.voice (Voice.channelNibble status) action, rest)

/-- The messages of a whole stream. -/
def decode (bytes : List UInt8) : Option (List Message) :=
  Bytes.readAll (fun () bytes => (read bytes).map fun (message, rest) => (message, (), rest))
    () bytes

end Message

end MidiScore
