import MidiScore.Message

/-!
# Bars

A bar is one measure of events under one meter.  Positions count ticks from the
start of the bar.  A bar whose events all last no time takes up no time itself; a
bar without events is a silence and takes up its full capacity.
-/

namespace MidiScore

/-- A message at a place in a bar. -/
structure Event where
  message : Message
  /-- Ticks from the start of the bar. -/
  position : Nat
  /-- Ticks that a note sounds, zero for any other message. -/
  duration : Nat
  channel : UInt8
  deriving Repr, DecidableEq

namespace Event

/-- The event for a reader. -/
def render (event : Event) : String :=
  s!"channel: {event.channel.toNat} pos: {event.position} dur: {event.duration} " ++
    s!"message: {event.message.render}"

end Event

/-- A measure of events. -/
structure Bar where
  meter : Meter
  events : List Event
  deriving Repr, DecidableEq

namespace Bar

/-- Ticks that the bar takes up on the grid of its meter. -/
def capacity (bar : Bar) : Nat :=
  bar.meter.capacity

/-- Whether the bar holds events, none of which lasts. -/
def isZeroDuration (bar : Bar) : Bool :=
  !bar.events.isEmpty && bar.events.all (·.duration == 0)

/-- The capacity, where the meter has one. -/
def capacity? (bar : Bar) : Option Nat :=
  if bar.meter.isMeasurable then some bar.capacity else none

/-- The time that the bar takes at a tempo.  A bar of zero duration takes none
under any meter; any other bar must have a capacity. -/
def duration? (bar : Bar) (tempo : Binary64) : Option Nat :=
  if bar.isZeroDuration then some 0 else bar.capacity?.map (durationOfTicks tempo)

/-- The bar for a reader: the meter, and a line for each event. -/
def render (bar : Bar) : String :=
  let lines := bar.events.map fun event => "\n" ++ event.render
  s!"time: {bar.meter.render}" ++
    if bar.events.isEmpty then "" else "\nevents:" ++ String.join lines

end Bar

end MidiScore
