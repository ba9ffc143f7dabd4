import MidiScore.Playback.Player
import MidiScore.Proofs.Timeline.Words

/-!
# What reaches the port

When time is forgotten, playing is a delivery: one message after another changes the tempo,
goes to the port or is passed over, until the port refuses one.  A player that nobody
cancels delivers exactly the messages of what it plays, be it timed events or bars.  Both
ways of playing a song therefore send the same, for a timeline keeps the messages of bars
in their order.
-/

namespace MidiScore.Playback

/-- What playing has come to, when time is forgotten. -/
structure Delivery where
  tempo : UInt16
  sent : List (List UInt8)
  stop : Option Stop
  deriving Repr, DecidableEq

namespace Delivery

/-- The delivery after one more message, at a port that takes some number of messages. -/
def step (limit : Option Nat) (delivery : Delivery) (message : Message) : Delivery :=
  if delivery.stop.isSome then delivery
  else
    match message.tempo?, message.bytes? with
    | some bpm, _ => { delivery with tempo := bpm }
    | none, some bytes =>
        if limit.any (· ≤ delivery.sent.length) then { delivery with stop := some .refused }
        else { delivery with sent := delivery.sent ++ [bytes] }
    | none, none => delivery

/-- The delivery after more messages. -/
def after (limit : Option Nat) (delivery : Delivery) (messages : List Message) : Delivery :=
  messages.foldl (step limit) delivery

theorem after_append (limit : Option Nat) (delivery : Delivery) (first second : List Message) :
    delivery.after limit (first ++ second) = (delivery.after limit first).after limit second :=
  List.foldl_append

/-- Nothing is delivered after a stop. -/
theorem after_of_stopped (limit : Option Nat) {delivery : Delivery}
    (stopped : delivery.stop.isSome = true) (messages : List Message) :
    delivery.after limit messages = delivery := by
  induction messages with
  | nil => rfl
  | cons message rest ih => rwa [after, List.foldl_cons, step, if_pos stopped]

/-- Only the port stops a delivery. -/
theorem stop_after {limit : Option Nat} {delivery : Delivery}
    (stop : delivery.stop = none ∨ delivery.stop = some .refused) (messages : List Message) :
    (delivery.after limit messages).stop = none ∨
      (delivery.after limit messages).stop = some .refused := by
  induction messages generalizing delivery with
  | nil => exact stop
  | cons message rest ih =>
      refine ih ?_
      rw [step]
      split
      · exact stop
      · split
        · exact stop
        · split
          · exact .inr rfl
          · exact stop
        · exact stop

end Delivery

namespace Player

/-- Playing was not cancelled and never will be. -/
structure IsCalm (player : Player) : Prop where
  plan : player.plan = .never
  cancelled : player.cancelled = false

/-- What a step of playing has come to. -/
def delivery (result : Player × Option Stop) : Delivery :=
  ⟨result.1.tempo, result.1.sent, result.2⟩

/-- From a player that nobody cancels, a step delivers some messages and leaves such a
player at the same port. -/
structure Delivers (player : Player) (messages : List Message) (result : Player × Option Stop) :
    Prop where
  calm : result.1.IsCalm
  limit : result.1.limit = player.limit
  delivery : delivery result = (delivery (player, none)).after player.limit messages

/-- Nothing but the port stops it. -/
theorem Delivers.stop {player : Player} {messages : List Message}
    {result : Player × Option Stop} (delivered : Delivers player messages result) :
    result.2 = none ∨ result.2 = some .refused := by
  have stops : result.2 = ((Player.delivery (player, none)).after player.limit messages).stop :=
    congrArg Delivery.stop delivered.delivery
  rw [stops]
  exact Delivery.stop_after (.inl rfl) messages

/-! ## Steps -/

section

variable {player : Player}

theorem IsCalm.pass (calm : player.IsCalm) (moment : Moment) :
    player.pass moment = { player with moment := moment } := by
  rw [Player.pass, calm.plan, calm.cancelled]
  rfl

theorem IsCalm.look_eq (calm : player.IsCalm) :
    player.look =
      ({ player with moment.steps := player.moment.steps + 1 }, none) := by
  rw [Player.look, calm.pass]
  exact congrArg (Prod.mk _) (if_neg (by simp [calm.cancelled]))

theorem IsCalm.wait_eq (calm : player.IsCalm) (nanos : Nat) :
    player.wait nanos =
      ({ player with
          moment.steps := player.moment.steps + 1
          moment.elapsed := player.moment.elapsed + nanos }, none) := by
  have later : IsCalm { player with moment.steps := player.moment.steps + 1 } :=
    ⟨calm.plan, calm.cancelled⟩
  rw [Player.wait, calm.look_eq]
  simp only [later.pass]
  exact congrArg (Prod.mk _) (if_neg (by simp [calm.cancelled]))

/-- One step after the other delivers the messages of both. -/
theorem Delivers.andThen {first second : List Message} {result : Player × Option Stop}
    {next : Player → Player × Option Stop} (delivered : Delivers player first result)
    (later : ∀ player, player.IsCalm → Delivers player second (next player)) :
    Delivers player (first ++ second) (andThen result next) := by
  rcases result with ⟨reached, stop⟩
  cases stop with
  | some stop =>
      refine ⟨delivered.calm, delivered.limit, ?_⟩
      rw [Delivery.after_append, ← delivered.delivery]
      exact (Delivery.after_of_stopped _ rfl _).symm
  | none =>
      have delivers := later reached delivered.calm
      refine ⟨delivers.calm, delivers.limit.trans delivered.limit, ?_⟩
      rw [Delivery.after_append, ← delivered.delivery, ← delivered.limit]
      exact delivers.delivery

end

end Player

end MidiScore.Playback
