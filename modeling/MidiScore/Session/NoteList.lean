import MidiScore.Session.InPlace

/-!
# Writing notes in place

Notes can also be written into the bar under construction itself.  A pen goes from note to
note and collects what each adds; the bar changes in one go at the end, once all notes are
known and their sum fits.
-/

namespace MidiScore

/-- The scale of the channel in force. -/
def Context.scale (context : Context) : Scale :=
  context.signatures.scale context.scope.channel

/-- The events of the notes so far, and where the next note starts. -/
structure Pen where
  events : List Event
  cursor : UInt32
  deriving Repr, DecidableEq

namespace Pen

/-- The pen at the start of a bar. -/
def start : Pen := ⟨[], 0⟩

/-- Write a note.  A rest only moves the pen. -/
def write (now : Context) (pen : Pen) (note : Note) : Except Error Pen := do
  let events ← note.eventsAt now.keys now.scale now.scope pen.cursor
  let cursor ← note.moveCursor pen.cursor
  return ⟨pen.events ++ events, cursor⟩

end Pen

namespace OpenBar

end OpenBar

end MidiScore
