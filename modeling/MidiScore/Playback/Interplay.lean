import MidiScore.Playback.CancelToken

/-!
# Calls at the same time

Any number of calls may be made on a token, its clones and its cancellers, some beginning
before others have returned.  What happens is one sequence of moves: a canceller is cloned or
goes away, a call begins, or some call does its next step.  Clones of a token share all of its
state, so it does not matter on which of them a call is made.
-/

namespace MidiScore.Playback

/-- A token and all calls so far, in the order in which they began. -/
structure Interplay where
  token : CancelToken
  calls : List Call
  deriving Repr, DecidableEq

namespace Interplay

/-- A token on which no calls were made. -/
def start (token : CancelToken) : Interplay := ⟨token, []⟩

/-- One thing that happens. -/
inductive Move where
  /-- A canceller is cloned. -/
  | clone
  /-- A canceller goes away. -/
  | drop
  /-- A call begins. -/
  | call (kind : Call.Kind)
  /-- A call does its next step. -/
  | proceed (index : Nat)
  deriving Repr, DecidableEq

/-- Whether a canceller may go away.  One on which a call is going on stays; which one that is
is not known, so of several any may go. -/
def mayDrop (play : Interplay) : Bool :=
  1 < play.token.cancellers ||
    (play.token.cancellers == 1 &&
      play.calls.all fun call => call.kind != .cancel || call.isOver)

/-- The next moment, if the move is possible.  Cloning and cancelling need a canceller, and a
call does no more steps after it has returned. -/
def step? (play : Interplay) : Move → Option Interplay
  | .clone =>
      if 0 < play.token.cancellers then some { play with token := play.token.clone } else none
  | .drop => if play.mayDrop then some { play with token := play.token.drop } else none
  | .call kind =>
      if kind = .cancel ∧ play.token.cancellers = 0 then none
      else some { play with calls := play.calls ++ [kind.first] }
  | .proceed index =>
      match play.calls[index]? with
      | none => none
      | some call =>
          if call.isOver then none
          else
            let after := call.proceed play.token
            some ⟨after.2, play.calls.set index after.1⟩

/-- What moves one after the other lead to, if all of them are possible. -/
def run (play : Interplay) (moves : List Move) : Option Interplay :=
  moves.foldlM step? play

end Interplay

end MidiScore.Playback
