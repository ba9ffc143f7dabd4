/-!
# Cancel tokens

A player waits on a token that any number of cancellers may set.  Setting it
raises a flag that nobody lowers, and then leaves a wake-up for a waiting player,
if there is room for one.  Cancellers may go away.

Several calls on a token and its cancellers may be made at the same time.  Each
goes on in single steps, `Call.proceed`, between which the others may do theirs.
-/

namespace MidiScore.Playback

/-- The state that a token shares with its clones and its cancellers. -/
structure CancelToken where
  flag : Bool
  /-- Wake-ups that were left and not taken yet. -/
  wakeups : Nat
  /-- How many cancellers are left. -/
  cancellers : Nat
  /-- Whether the token stays connected without cancellers. -/
  kept : Bool
  deriving Repr, DecidableEq

/-- What a player finds that listens for a wake-up until its time is up. -/
inductive Finding where
  | wakeup
  | nothing
  /-- There is no wake-up, and nobody is left who might leave one. -/
  | nobody
  deriving Repr, DecidableEq

namespace CancelToken

/-- A token that nobody can set. -/
def never : CancelToken := ⟨false, 0, 0, true⟩

/-- A token with one canceller. -/
def connected : CancelToken := ⟨false, 0, 1, false⟩

/-- For how many wake-ups there is room. -/
def room : Nat := 1

/-- First half of a cancellation: raise the flag. -/
def raise (token : CancelToken) : CancelToken :=
  { token with flag := true }

/-- Second half of a cancellation: leave a wake-up, unless there is no room for it. -/
def signal (token : CancelToken) : CancelToken :=
  if token.wakeups < room then { token with wakeups := token.wakeups + 1 } else token

/-- End of listening: take a wake-up if there is one. -/
def listen (token : CancelToken) : Finding × CancelToken :=
  if 0 < token.wakeups then (.wakeup, { token with wakeups := token.wakeups - 1 })
  else if token.cancellers = 0 ∧ token.kept = false then (.nobody, token)
  else (.nothing, token)

/-- One canceller becomes two. -/
def clone (token : CancelToken) : CancelToken :=
  { token with cancellers := token.cancellers + 1 }

/-- One canceller goes away. -/
def drop (token : CancelToken) : CancelToken :=
  { token with cancellers := token.cancellers - 1 }

/-- Whether the token is set. -/
def isCancelled (token : CancelToken) : Bool :=
  token.flag

end CancelToken

/-- How far a cancellation has come. -/
inductive Cancelling where
  | begun
  | raised
  | returned
  deriving Repr, DecidableEq

/-- How far a wait has come. -/
inductive Waiting where
  | begun
  /-- The token was not set; the player listens for a wake-up. -/
  | listening
  /-- The time is up without a wake-up. -/
  | timedOut
  /-- All cancellers are gone. -/
  | deserted
  /-- The token was not set by any of them; the player sleeps until its time is up. -/
  | asleep
  | returned (cancelled : Bool)
  deriving Repr, DecidableEq

/-- A call on a token or one of its cancellers. -/
inductive Call where
  | cancel (stage : Cancelling)
  | wait (stage : Waiting)
  /-- A look whether the token is set, with its answer once there is one. -/
  | look (answer? : Option Bool)
  deriving Repr, DecidableEq

/-- How a wait goes on after it has listened. -/
def Waiting.after : Finding → Waiting
  | .wakeup => .returned true
  | .nothing => .timedOut
  | .nobody => .deserted

namespace Call

/-- What a call is for. -/
inductive Kind where
  | cancel
  | wait
  | look
  deriving Repr, DecidableEq

/-- A call of the kind before its first step. -/
def Kind.first : Kind → Call
  | .cancel => .cancel .begun
  | .wait => .wait .begun
  | .look => .look none

/-- What the call is for. -/
def kind : Call → Kind
  | .cancel _ => .cancel
  | .wait _ => .wait
  | .look _ => .look

/-- What a wait or a look has found: whether the token was set. -/
def answer? : Call → Option Bool
  | .wait (.returned cancelled) => some cancelled
  | .look answer? => answer?
  | _ => none

/-- Whether the call has returned. -/
def isOver : Call → Bool
  | .cancel .returned | .wait (.returned _) | .look (some _) => true
  | _ => false

/-- The next step of a call on the state of its token. -/
def proceed (call : Call) (token : CancelToken) : Call × CancelToken :=
  match call with
  | .cancel .begun => (.cancel .raised, token.raise)
  | .cancel .raised => (.cancel .returned, token.signal)
  | .wait .begun =>
      if token.isCancelled then (.wait (.returned true), token) else (.wait .listening, token)
  | .wait .listening => (.wait (.after token.listen.1), token.listen.2)
  | .wait .timedOut => (.wait (.returned token.isCancelled), token)
  | .wait .deserted =>
      if token.isCancelled then (.wait (.returned true), token) else (.wait .asleep, token)
  | .wait .asleep => (.wait (.returned false), token)
  | .look none => (.look (some token.isCancelled), token)
  | .cancel .returned | .wait (.returned _) | .look (some _) => (call, token)

/-- How many steps a call takes at most until it returns. -/
def stepsLeft : Call → Nat
  | .cancel .begun => 2
  | .cancel .raised => 1
  | .wait .begun => 4
  | .wait .listening => 3
  | .wait .deserted => 2
  | .wait .timedOut | .wait .asleep => 1
  | .look none => 1
  | .cancel .returned | .wait (.returned _) | .look (some _) => 0

theorem stepsLeft_proceed_lt {call : Call} (running : call.isOver = false)
    (token : CancelToken) : (call.proceed token).1.stepsLeft < call.stepsLeft := by
  cases call with
  | cancel stage =>
      cases stage with
      | begun | raised => simp [proceed, stepsLeft]
      | returned => contradiction
  | wait stage =>
      cases stage with
      | begun | deserted =>
          rw [proceed]
          split <;> simp [stepsLeft]
      | listening =>
          rw [proceed]
          cases token.listen.1 <;> simp [Waiting.after, stepsLeft]
      | timedOut | asleep => simp [proceed, stepsLeft]
      | returned => contradiction
  | look answer? =>
      cases answer? with
      | none => simp [proceed, stepsLeft]
      | some => contradiction

/-- The call when it has returned, and the state of its token, if no other call comes in
between. -/
def alone (call : Call) (token : CancelToken) : Call × CancelToken :=
  if call.isOver then (call, token)
  else alone (call.proceed token).1 (call.proceed token).2
termination_by call.stepsLeft
decreasing_by exact stepsLeft_proceed_lt (Bool.eq_false_iff.mpr ‹_›) token

end Call

namespace CancelToken

/-- A canceller, if any is left, sets the token. -/
def cancel (token : CancelToken) : CancelToken :=
  if token.cancellers = 0 then token else (Call.Kind.cancel.first.alone token).2

/-- Wait on the token undisturbed: whether the wait was cut short, and the token
afterwards. -/
def sleep (token : CancelToken) : Bool × CancelToken :=
  let (call, after) := Call.Kind.wait.first.alone token
  (call.answer? == some true, after)

end CancelToken

end MidiScore.Playback
