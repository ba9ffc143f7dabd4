import MidiScore.Playback.Player

/-!
# Programs of a player

Whether events are played or bars, a player does the same few things in a row: it lets a
moment pass, checks whether playing was cancelled, sleeps, acts on a message, or finds out
how long a bar is.  Which of them it does, and in which order, can be read off the piece
before anything is played.  Playing may be cancelled while a moment passes, during a sleep
and while the port takes a message, but only a check stops for it.
-/

namespace MidiScore

namespace Message

/-- What reaches a port that takes all of some messages: the bytes of each playable one. -/
def packets (messages : List Message) : List (List UInt8) :=
  (messages.filter (·.isPlayable)).filterMap (·.bytes?)

/-- The last tempo of some messages, or the one before them. -/
def tempoAfter (initial : UInt16) (messages : List Message) : UInt16 :=
  (messages.filterMap (·.tempo?)).getLast?.getD initial

end Message

namespace Playback

/-- How long to sleep: some nanoseconds, or some ticks at the tempo of the player. -/
inductive Pause where
  | nanos (count : Nat)
  | ticks (count : Nat)
  deriving Repr, DecidableEq

namespace Pause

/-- The pause from one position to another, if it lies ahead. -/
def between? (position target : Nat) : Option Pause :=
  if position < target then some (.ticks (target - position)) else none

end Pause

/-- One thing that a player does. -/
inductive Action where
  /-- Let a moment pass. -/
  | linger
  /-- Stop if playing was cancelled. -/
  | check
  | sleep (pause : Pause)
  | act (message : Message)
  /-- Find out how long a bar under the meter is. -/
  | measure (meter : Meter)
  deriving Repr, DecidableEq

namespace Action

/-- The message that the player acts on. -/
def message? : Action → Option Message
  | .act message => some message
  | _ => none

/-- The actions of a wait, which looks at its start and at its end. -/
def ofPause : Option Pause → List Action
  | none => []
  | some pause => [.linger, .check, .sleep pause, .check]

/-- The actions for a message: a look, the wait for it, if any, and the message itself. -/
def ofMessage (pause : Option Pause) (message : Message) : List Action :=
  [.linger, .check] ++ (ofPause pause ++ [.linger, .act message])

/-- The actions for events after one at the nanosecond `previous`. -/
def ofTimed (previous : Int) : List TimedEvent → List Action
  | [] => []
  | event :: rest =>
      ofMessage ((Player.delay? previous event.nanos).map .nanos) event.message ++
        ofTimed event.nanos rest

/-- The actions for the events of a bar from a position. -/
def ofEvents (position : Nat) : List Event → List Action
  | [] => []
  | event :: rest =>
      ofMessage (Pause.between? position event.position) event.message ++
        ofEvents (max position event.position) rest

/-- The position reached with the events of a bar. -/
def lastPosition (position : Nat) (events : List Event) : Nat :=
  events.foldl (fun position event => max position event.position) position

/-- The wait from the last event of a bar to its end, if the bar takes up time. -/
def restOf (bar : Bar) : Option Pause :=
  if bar.isZeroDuration then none else Pause.between? (lastPosition 0 bar.events) bar.capacity

/-- The actions for a bar. -/
def ofBar (bar : Bar) : List Action :=
  ofEvents 0 bar.events ++ .measure bar.meter :: ofPause (restOf bar)

end Action

/-- What a player can be given to play. -/
inductive Piece where
  | events (list : List TimedEvent)
  | bars (list : List Bar)
  deriving Repr, DecidableEq

namespace Piece

/-- The messages of the piece in order. -/
def messages : Piece → List Message
  | .events list => list.map (·.message)
  | .bars list => (list.flatMap (·.events)).map (·.message)

/-- Whether all bars of the piece have a capacity. -/
def isMeasurable : Piece → Bool
  | .events _ => true
  | .bars list => list.all (·.meter.isMeasurable)

/-- Whether there is no event in the piece and nothing to wait for. -/
def isIdle : Piece → Bool
  | .events list => list.isEmpty
  | .bars list => list.all fun bar => bar.events.isEmpty && bar.capacity == 0

/-- The actions for the piece.  The first of its events comes at once. -/
def program : Piece → List Action
  | .events [] => []
  | .events (first :: rest) => Action.ofTimed first.nanos (first :: rest)
  | .bars list => list.flatMap Action.ofBar

end Piece

namespace Player

/-- The time of a pause at the tempo of the player. -/
def length (player : Player) : Pause → Nat
  | .nanos count => count
  | .ticks count => player.span count

/-- Do one thing. -/
def execute (player : Player) : Action → Player × Option Stop
  | .linger => (player.pass { player.moment with steps := player.moment.steps + 1 }, none)
  | .check => (player, if player.cancelled then some .cancelled else none)
  | .sleep pause =>
      let elapsed := player.moment.elapsed + player.length pause
      (player.pass { player.moment with elapsed := elapsed }, none)
  | .act message => player.act message
  | .measure meter => (player, if meter.isMeasurable then none else some .unmeasurable)

/-- Do one thing after the other, until one stops. -/
def executeAll (player : Player) : List Action → Player × Option Stop
  | [] => (player, none)
  | action :: rest => andThen (player.execute action) fun player => player.executeAll rest

/-- Play a piece. -/
def playPiece (player : Player) : Piece → Player × Option Stop
  | .events list => player.play list
  | .bars list => player.playBars list

/-- The player after some pieces, of which each is played to its end or to a stop. -/
def afterPieces (player : Player) (pieces : List Piece) : Player :=
  pieces.foldl (fun player piece => (player.playPiece piece).1) player

end Player

end Playback

end MidiScore
