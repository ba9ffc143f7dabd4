import MidiScore.Message.Reader

/-!
# What a reader makes of wire bytes

The bytes of a message keep four bits of its channel and seven of its other numbers.
A reader finds the message with its numbers so reduced, and leaves all bytes behind it,
so that a stream of messages is read back one by one, `Message.decode_wire`.
-/

namespace MidiScore

namespace Bytes

variable {σ α : Type} {read : σ → List UInt8 → Option (α × σ × List UInt8)} {state next : σ}
  {item : α} {front rest : List UInt8}

@[simp]
theorem readAll_nil : readAll read state [] = some [] := by
  rw [readAll]

/-- An item with bytes is read in front of what its state makes of the rest. -/
theorem readAll_append (nonempty : front ≠ [])
    (first : read state (front ++ rest) = some (item, next, rest)) :
    readAll read state (front ++ rest) = (readAll read next rest).map (item :: ·) := by
  cases front with
  | nil => contradiction
  | cons byte others =>
      rw [List.cons_append] at first ⊢
      rw [readAll, first]
      exact if_pos (by simp)

theorem readData_append {data : List UInt8} (small : ∀ byte ∈ data, byte < 0x80) :
    readData data.length (data ++ rest) = some (data, rest) := by
  induction data with
  | nil => rfl
  | cons byte others ih =>
      rcases List.forall_mem_cons.mp small with ⟨smallHere, smallLater⟩
      rw [List.length_cons, List.cons_append, readData, if_pos smallHere, ih smallLater]
      rfl

end Bytes

namespace Voice

/-- The action with the bits of its numbers that fit data bytes. -/
def reduce : Voice → Voice
  | .noteOn key velocity => .noteOn (dataByte key) (dataByte velocity)
  | .noteOff key => .noteOff (dataByte key)
  | .programChange program => .programChange (dataByte program)
  | .controlChange control value => .controlChange (dataByte control) (dataByte value)

theorem toNat_dataByte (value : UInt8) : (dataByte value).toNat = value.toNat % 128 := by
  rw [dataByte, UInt8.toNat_and]
  exact Nat.and_two_pow_sub_one_eq_mod value.toNat 7

theorem toNat_channelNibble (channel : UInt8) :
    (channelNibble channel).toNat = channel.toNat % 16 := by
  rw [channelNibble, UInt8.toNat_and]
  exact Nat.and_two_pow_sub_one_eq_mod channel.toNat 4

theorem dataByte_lt (value : UInt8) : dataByte value < 0x80 := by
  rw [UInt8.lt_iff_toNat_lt, toNat_dataByte]
  exact Nat.mod_lt _ (by decide)

theorem dataByte_of_le {value : UInt8} (small : value.toNat ≤ 127) : dataByte value = value := by
  rw [← UInt8.toNat_inj, toNat_dataByte]
  omega

theorem channelNibble_of_le {channel : UInt8} (small : channel.toNat ≤ 15) :
    channelNibble channel = channel := by
  rw [← UInt8.toNat_inj, toNat_channelNibble]
  omega

/-- The halves of a status byte do not overlap. -/
theorem toNat_statusByte (channel : UInt8) (action : Voice) :
    (action.statusByte channel).toNat = action.status.toNat + channel.toNat % 16 := by
  have low : channel.toNat % 16 < 2 ^ 4 := Nat.mod_lt _ (by decide)
  rw [statusByte, UInt8.toNat_or, toNat_channelNibble]
  cases action with
  | noteOff key => exact (Nat.two_pow_add_eq_or_of_lt low 8).symm
  | noteOn key velocity => exact (Nat.two_pow_add_eq_or_of_lt low 9).symm
  | controlChange control value => exact (Nat.two_pow_add_eq_or_of_lt low 11).symm
  | programChange program => exact (Nat.two_pow_add_eq_or_of_lt low 12).symm

/-- A status leaves the low half of its byte to the channel. -/
theorem toNat_status_mod (action : Voice) : action.status.toNat % 16 = 0 := by
  cases action <;> simp [status]

theorem statusByte_div (channel : UInt8) (action : Voice) :
    (action.statusByte channel).toNat / 16 = action.status.toNat / 16 := by
  have whole := action.toNat_status_mod
  rw [toNat_statusByte]
  omega

theorem channelNibble_statusByte (channel : UInt8) (action : Voice) :
    channelNibble (action.statusByte channel) = channelNibble channel := by
  have whole := action.toNat_status_mod
  rw [← UInt8.toNat_inj, toNat_channelNibble, toNat_channelNibble, toNat_statusByte]
  omega

theorem statusByte_lt (channel : UInt8) (action : Voice) :
    (action.statusByte channel).toNat < 0xD0 := by
  have bounded : action.status.toNat ≤ 0xC0 := by cases action <;> simp [status]
  rw [toNat_statusByte]
  omega

theorem le_statusByte (channel : UInt8) (action : Voice) :
    0x80 ≤ (action.statusByte channel).toNat := by
  have least : 0x80 ≤ action.status.toNat := by cases action <;> simp [status]
  rw [toNat_statusByte]
  omega

theorem dataBytes_lt (action : Voice) : ∀ byte ∈ action.dataBytes, byte < 0x80 := by
  cases action <;> simp [dataBytes, dataByte_lt]

theorem dataBytes_ne_nil (action : Voice) : action.dataBytes ≠ [] := by
  cases action <;> simp [dataBytes]

theorem dataCount_statusByte (channel : UInt8) (action : Voice) :
    dataCount (action.statusByte channel) = action.dataBytes.length := by
  rw [dataCount, statusByte_div]
  cases action <;> simp [status, dataBytes]

theorem ofData?_dataBytes (channel : UInt8) (action : Voice) :
    ofData? (action.statusByte channel) action.dataBytes = some action.reduce := by
  unfold ofData?
  rw [statusByte_div]
  cases action <;> simp [status, dataBytes, reduce]

/-- The data bytes of an action are read as the action with its numbers reduced. -/
theorem read_dataBytes (channel : UInt8) (action : Voice) (rest : List UInt8) :
    read (action.statusByte channel) (action.dataBytes ++ rest) =
      some (action.reduce, rest) := by
  rw [read, dataCount_statusByte, Bytes.readData_append action.dataBytes_lt]
  simp [ofData?_dataBytes]

end Voice

namespace Message

/-- The message with the bits of its numbers that fit wire bytes. -/
def reduce : Message → Message
  | .voice channel action => .voice (Voice.channelNibble channel) action.reduce
  | other => other

/-- What an output port receives for messages: those that are not for ports are left out. -/
def wire (messages : List Message) : List UInt8 :=
  (messages.filterMap bytes?).flatten

/-- The bytes of a message are read as the message with its numbers reduced. -/
theorem read_bytes? {message : Message} {bytes : List UInt8} (sent : message.bytes? = some bytes)
    (rest : List UInt8) : read (bytes ++ rest) = some (message.reduce, rest) := by
  cases message with
  | voice channel action =>
      cases sent
      have bounded := action.statusByte_lt channel
      have notStart : action.statusByte channel ≠ startByte := by
        rintro same
        rw [same] at bounded
        contradiction
      have notStop : action.statusByte channel ≠ stopByte := by
        rintro same
        rw [same] at bounded
        contradiction
      rw [List.cons_append, read, if_neg notStart, if_neg notStop, Voice.read_dataBytes,
        Voice.channelNibble_statusByte]
      rfl
  | start =>
      cases sent
      rfl
  | stop =>
      cases sent
      rfl
  | _ => contradiction

/-- The bytes of messages are read back one by one. -/
theorem decode_wire (messages : List Message) :
    decode (wire messages) = some ((messages.filter isPlayable).map reduce) := by
  induction messages with
  | nil => exact Bytes.readAll_nil
  | cons message rest ih =>
      cases sent : message.bytes? with
      | none =>
          have skipped : message.isPlayable = false := by
            rw [← isSome_bytes?, sent]
            rfl
          simpa [wire, sent, skipped] using ih
      | some bytes =>
          have played : message.isPlayable = true := by
            rw [← isSome_bytes?, sent]
            rfl
          have nonempty : bytes ≠ [] := by
            cases message <;> cases sent <;> simp
          have here : wire (message :: rest) = bytes ++ wire rest := by
            simp [wire, sent]
          rw [here, decode, Bytes.readAll_append nonempty
            (by rw [read_bytes? sent]; rfl), ← decode, ih]
          simp [played]

end Message

end MidiScore
