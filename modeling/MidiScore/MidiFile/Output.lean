import MidiScore.MidiFile.Writer

/-!
# Writing files behind other bytes

A file is written to the end of bytes that are there already.  Its song is checked first; then
an encoder puts out the bytes of the file.  The encoder works in place and can fail as well.
-/

namespace MidiScore.MidiFile

/-- A program that writes files to the end of some bytes.  When it fails, what it has written
before stays. -/
abbrev Encoder : Type := MidiFile → EStateM String (List UInt8) Unit

/-- Why bars are not written. -/
inductive OutputError where
  /-- They do not fit a file. -/
  | file (error : Error)
  | encoder (reason : String)
  deriving Repr, DecidableEq

/-- The message for a reader. -/
def OutputError.message : OutputError → String
  | .file error => error.message
  | .encoder reason => s!"SMF error: Failed to write MIDI: {reason}"

/-- Write the file of bars played from a tempo. -/
def write (encode : Encoder) (tempo : UInt16) (bars : List Bar) :
    EStateM OutputError (List UInt8) Unit := do
  let file ← ofExcept ((ofBars tempo bars).mapError .file)
  (encode file).adaptExcept .encoder

end MidiScore.MidiFile
