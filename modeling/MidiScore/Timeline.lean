import MidiScore.Session.Flush
import MidiScore.Word

/-!
# Timelines

A timeline puts bars one after another.  Every event gets the tick and the
nanosecond at which it happens.  A tempo holds from the event that sets it: later
events of its bar, the end of that bar and all later bars are timed by it.

Ticks are counted in words of 32 bits, nanoseconds in words of 64 bits with a sign.
Bars that lead beyond them have no timeline.
-/

namespace MidiScore

/-- A message at a moment of a song. -/
structure TimedEvent where
  message : Message
  /-- Ticks from the start of the song, a word. -/
  tick : Nat
  /-- Nanoseconds from the start of the song, a word with a sign. -/
  nanos : Int
  deriving Repr, DecidableEq

namespace TimedEvent

/-- The event for a reader. -/
def render (event : TimedEvent) : String :=
  s!"tick: {event.tick} ns: {event.nanos} message: {event.message.render}"

/-- Order of events by tick. -/
def precedes (first second : TimedEvent) : Bool :=
  first.tick ≤ second.tick

end TimedEvent

/-- Where the next bar starts, and at which tempo. -/
structure Clock where
  tempo : UInt16
  tick : Nat
  nanos : Int
  deriving Repr, DecidableEq

namespace Clock

/-- The start of a song. -/
def start (tempo : UInt16) : Clock := ⟨tempo, 0, 0⟩

/-- The length of some ticks at the tempo of the clock. -/
def span (clock : Clock) (ticks : Nat) : Int :=
  nanosOfTicks (.ofNat clock.tempo.toNat) ticks

/-- The moment of an event in the bar that starts now. -/
def timed? (clock : Clock) (event : Event) : Option TimedEvent := do
  let tick ← word? (clock.tick + event.position)
  let nanos ← longWord? (clock.nanos + clock.span event.position)
  return ⟨event.message, tick.toNat, nanos.toInt⟩

/-- The tempo after a message. -/
def hear (clock : Clock) (message : Message) : Clock :=
  { clock with tempo := message.tempo?.getD clock.tempo }

/-- The moments of the events of one bar, and the clock with the tempo they leave. -/
def placeEvents? (clock : Clock) : List Event → Option (List TimedEvent × Clock)
  | [] => some ([], clock)
  | event :: rest => do
      let timed ← clock.timed? event
      let (later, final) ← (clock.hear event.message).placeEvents? rest
      return (timed :: later, final)

/-- The clock after some ticks. -/
def advance? (clock : Clock) (ticks : Nat) : Option Clock := do
  let tick ← word? (clock.tick + ticks)
  let nanos ← longWord? (clock.nanos + clock.span ticks)
  return ⟨clock.tempo, tick.toNat, nanos.toInt⟩

/-- The moments of the events of bars, and the clock at their end. -/
def placeBars? (clock : Clock) : List Bar → Option (List TimedEvent × Clock)
  | [] => some ([], clock)
  | bar :: rest => do
      let (events, heard) ← clock.placeEvents? bar.events
      let next ← heard.advance? (← bar.capacity?)
      let (later, final) ← next.placeBars? rest
      return (events ++ later, final)

end Clock

/-- A clock with the events that wait to be taken. -/
structure Timeline where
  clock : Clock
  waiting : List TimedEvent
  deriving Repr, DecidableEq

namespace Timeline

/-- A timeline before its first bar. -/
def start (tempo : UInt16) : Timeline := ⟨.start tempo, []⟩

/-- The timeline with more bars, provided that all of them have a capacity and words hold
all moments. -/
def add? (timeline : Timeline) (bars : List Bar) : Option Timeline := do
  let (events, clock) ← timeline.clock.placeBars? bars
  return ⟨clock, timeline.waiting ++ events⟩

/-- Take the events in order of tick, those of one tick in the order they had. -/
def flush (timeline : Timeline) : List TimedEvent × Timeline :=
  (timeline.waiting.mergeSort TimedEvent.precedes, { timeline with waiting := [] })

/-- The events of bars from the start of a song. -/
def ofBars? (tempo : UInt16) (bars : List Bar) : Option (List TimedEvent) := do
  let timeline ← (start tempo).add? bars
  return timeline.flush.1

end Timeline

/-- The timed events of a score in a session of its own. -/
def sequence (config : Config) (declarations : List Declaration) :
    Except Error (List TimedEvent) := do
  let bars ← compile config declarations
  Error.orOverflow (Timeline.ofBars? config.tempo bars)

end MidiScore
