import MidiScore.Timeline
import MidiScore.Message.Wire

/-!
# Playing to a port

A player sends the bytes of playable messages to a port, in order, and waits in
between.  The port takes some number of messages and refuses all others.  The
player may be cancelled at any moment: it looks before every event and whenever
it waits, and sends a message that is due without another look.  Messages that set
a tempo are not sent; they change the tempo by which bars are timed.

What matters of the world is kept with the player: the messages the port has taken,
and a plan that says from the moment reached so far whether playing was cancelled.
-/

namespace MidiScore.Playback

/-- How far playing has come. -/
structure Moment where
  /-- Looks, waits and messages so far. -/
  steps : Nat
  /-- Messages that the port has taken. -/
  sent : Nat
  /-- Nanoseconds waited. -/
  elapsed : Nat
  deriving Repr, DecidableEq

namespace Moment

/-- Before anything was played. -/
def start : Moment := ⟨0, 0, 0⟩

end Moment

/-- When playing is cancelled. -/
abbrev Plan : Type := Moment → Bool

namespace Plan

/-- Playing is never cancelled. -/
def never : Plan := fun _ => false

/-- Playing is cancelled from the start. -/
def atStart : Plan := fun _ => true

/-- Playing is cancelled while the port takes its `count`-th message. -/
def onSend (count : Nat) : Plan := fun moment => 0 < count && count ≤ moment.sent

/-- Playing is cancelled some nanoseconds after the start. -/
def afterNanos (nanos : Nat) : Plan := fun moment => nanos ≤ moment.elapsed

end Plan

/-- Why playing stopped before the end. -/
inductive Stop where
  | cancelled
  /-- The port refused a message. -/
  | refused
  /-- A bar has a meter without capacity. -/
  | unmeasurable
  deriving Repr, DecidableEq

/-- The message for a reader. -/
def Stop.message : Stop → String
  | .cancelled => "playback cancelled"
  | .refused => "failed to send MIDI message: port closed"
  | .unmeasurable => "a bar has no capacity"

/-- A player at a port. -/
structure Player where
  /-- Tempo in quarter notes per minute. -/
  tempo : UInt16
  /-- Messages that the port has taken, in order. -/
  sent : List (List UInt8)
  /-- How many messages the port takes, if it refuses any. -/
  limit : Option Nat
  plan : Plan
  moment : Moment
  /-- Whether playing was cancelled. -/
  cancelled : Bool

namespace Player

/-- A player before its first run. -/
def start (tempo : UInt16) (limit : Option Nat) (plan : Plan) : Player :=
  ⟨tempo, [], limit, plan, .start, plan .start⟩

/-- A moment passes, in which playing may be cancelled for good. -/
def pass (player : Player) (moment : Moment) : Player :=
  { player with
    moment := moment
    cancelled := player.cancelled || player.plan moment }

/-- Look whether playing was cancelled. -/
def look (player : Player) : Player × Option Stop :=
  let after := player.pass { player.moment with steps := player.moment.steps + 1 }
  (after, if after.cancelled then some .cancelled else none)

/-- Wait some nanoseconds, not at all when playing was cancelled before. -/
def wait (player : Player) (nanos : Nat) : Player × Option Stop :=
  match player.look with
  | (before, some stop) => (before, some stop)
  | (before, none) =>
      let after := before.pass { before.moment with elapsed := before.moment.elapsed + nanos }
      (after, if after.cancelled then some .cancelled else none)

/-- Send bytes to the port. -/
def send (player : Player) (bytes : List UInt8) : Player × Option Stop :=
  if player.limit.any (· ≤ player.sent.length) then (player, some .refused)
  else
    let moment :=
      { player.moment with
        steps := player.moment.steps + 1
        sent := player.moment.sent + 1 }
    ({ player with sent := player.sent ++ [bytes] }.pass moment, none)

/-- Act on a message: take its tempo, send it, or pass it over. -/
def act (player : Player) (message : Message) : Player × Option Stop :=
  match message.tempo? with
  | some bpm => ({ player with tempo := bpm }, none)
  | none =>
      match message.bytes? with
      | some bytes => player.send bytes
      | none => (player, none)

/-- Act on a message that is due.  When playing is cancelled right before, this does not
keep the message back. -/
def dispatch (player : Player) (message : Message) : Player × Option Stop :=
  (player.pass { player.moment with steps := player.moment.steps + 1 }).act message

/-- What follows a step, unless the step stopped. -/
def andThen (step : Player × Option Stop) (next : Player → Player × Option Stop) :
    Player × Option Stop :=
  match step with
  | (player, some stop) => (player, some stop)
  | (player, none) => next player

/-- The wait between two moments of a song, if any. -/
def delay? (previous next : Int) : Option Nat :=
  if previous < next then some (next - previous).toNat else none

/-- Wait if there is something to wait for. -/
def waitFor (player : Player) : Option Nat → Player × Option Stop
  | none => (player, none)
  | some nanos => player.wait nanos

/-- Play events after one at the nanosecond `previous`. -/
def playFrom (previous : Int) (player : Player) : List TimedEvent → Player × Option Stop
  | [] => (player, none)
  | event :: rest =>
      andThen player.look fun player =>
      andThen (player.waitFor (delay? previous event.nanos)) fun player =>
      andThen (player.dispatch event.message) fun player =>
      playFrom event.nanos player rest

/-- Play events in order.  The first one comes at once. -/
def play (player : Player) (events : List TimedEvent) : Player × Option Stop :=
  match events with
  | [] => (player, none)
  | first :: _ => playFrom first.nanos player events

/-- The time of some ticks at the tempo of the player. -/
def span (player : Player) (ticks : Nat) : Nat :=
  durationOfTicks (.ofNat player.tempo.toNat) ticks

/-- The wait from one position to another, if it lies ahead. -/
def ahead? (player : Player) (position target : Nat) : Option Nat :=
  if position < target then some (player.span (target - position)) else none

/-- Play the events of a bar from a position; also give the position reached. -/
def playEvents (position : Nat) (player : Player) :
    List Event → (Player × Option Stop) × Nat
  | [] => ((player, none), position)
  | event :: rest =>
      let step :=
        andThen player.look fun player =>
        andThen (player.waitFor (player.ahead? position event.position)) fun player =>
        player.dispatch event.message
      match step with
      | (player, some stop) => ((player, some stop), position)
      | (player, none) => playEvents (max position event.position) player rest

/-- Play a bar, to the end of its capacity if it takes up time. -/
def playBar (player : Player) (bar : Bar) : Player × Option Stop :=
  match playEvents 0 player bar.events with
  | ((player, some stop), _) => (player, some stop)
  | ((player, none), position) =>
      if bar.meter.isMeasurable then
        if bar.isZeroDuration then (player, none)
        else player.waitFor (player.ahead? position bar.capacity)
      else
        (player, some .unmeasurable)

/-- Play bars one after another. -/
def playBars (player : Player) : List Bar → Player × Option Stop
  | [] => (player, none)
  | bar :: rest => andThen (player.playBar bar) fun player => player.playBars rest

end Player

end MidiScore.Playback
