import MidiScore.Note.Basic
import MidiScore.Meter

/-!
# Declarations

A score is a list of declarations.  The body of a named bar is such a list again,
of any depth; which declarations may stand in it is decided when it is evaluated.
-/

namespace MidiScore

/-- One statement of a score. -/
inductive Declaration where
  /-- Bind a note name to a key on the current channel. -/
  | assign (note : Char) (key : UInt8)
  /-- Define a named bar. -/
  | defineBar (name : String) (body : List Declaration)
  /-- Play a named bar. -/
  | play (name : String)
  /-- Quarter notes per minute. -/
  | tempo (bpm : UInt16)
  | timeSignature (meter : Meter)
  | velocity (value : UInt8)
  | channel (number : UInt8)
  | program (number : UInt8)
  | control (number value : UInt8)
  | start
  | stop
  /-- Key signature of the current channel, by the name of its scale. -/
  | key (scale : String)
  | text (content : String)
  /-- Notes one after another from the start of the bar. -/
  | notes (list : List Note)
  deriving Repr

namespace Declaration

/-- The word for the declaration in messages. -/
def command : Declaration → String
  | .assign _ _ => "assign"
  | .defineBar _ _ => "bar"
  | .play _ => "play"
  | .tempo _ => "tempo"
  | .timeSignature _ => "time"
  | .velocity _ => "velocity"
  | .channel _ => "channel"
  | .program _ => "program"
  | .control _ _ => "control"
  | .start => "start"
  | .stop => "stop"
  | .key _ => "key"
  | .text _ => "text"
  | .notes _ => "notes"

mutual

/-- The declaration as it would be written in a score. -/
def render : Declaration → String
  | .assign note target => s!":assign {note} {target.toNat}"
  | .defineBar name body => s!":bar {name}" ++ renderBody body ++ " :end"
  | .play name => s!":play {name}"
  | .tempo bpm => s!":tempo {bpm.toNat}"
  | .timeSignature meter => s!":time {meter.numerator.toNat} {meter.denominator.toNat}"
  | .velocity value => s!":velocity {value.toNat}"
  | .channel number => s!":channel {number.toNat}"
  | .program number => s!":program {number.toNat}"
  | .control number value => s!":control {number.toNat} {value.toNat}"
  | .start => ":start"
  | .stop => ":stop"
  | .key scale => s!":key {scale}"
  | .text content => s!"/* {content} */"
  | .notes list => String.join (list.map Note.render)

/-- A body, each declaration after a space and closed by a semicolon. -/
def renderBody : List Declaration → String
  | [] => ""
  | first :: rest => " " ++ render first ++ ";" ++ renderBody rest

end

end Declaration

end MidiScore
