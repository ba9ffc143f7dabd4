import MidiScore.Session.Basic

/-!
# Taking the bars of a session

Bars that take up no time do not come out on their own.  Their events wait for
the next bar that takes up time and stand in front of its events; what waits at
the end comes out as a last bar without time.  The events of every bar that comes
out are in order of position, those of one position in the order they had.
-/

namespace MidiScore

namespace Event

/-- Order of events by position. -/
def precedes (first second : Event) : Bool :=
  first.position ≤ second.position

end Event

namespace Bar

/-- A bar of events put in order of position. -/
def ofEvents (meter : Meter) (events : List Event) : Bar :=
  ⟨meter, events.mergeSort Event.precedes⟩

/-- Bars after those whose events are `waiting` for a bar that takes up time. -/
def settle (waiting : List Event) : List Bar → List Bar
  | [] => []
  | bar :: rest =>
      if bar.isZeroDuration then
        match rest with
        | [] => [ofEvents bar.meter (waiting ++ bar.events)]
        | _ :: _ => settle (waiting ++ bar.events) rest
      else
        ofEvents bar.meter (waiting ++ bar.events) :: settle [] rest

end Bar

namespace Session

/-- Take the bars of a session; its buffer is empty afterwards. -/
def flush (session : Session) : List Bar × Session :=
  (Bar.settle [] session.buffer, { session with buffer := [] })

end Session

/-- The bars of a score in a session of its own. -/
def compile (config : Config) (declarations : List Declaration) : Except Error (List Bar) :=
  match (Session.ofConfig config).evaluate declarations with
  | (_, some error) => .error error
  | (session, none) => .ok session.flush.1

end MidiScore
