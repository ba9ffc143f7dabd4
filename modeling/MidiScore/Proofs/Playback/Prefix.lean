import MidiScore.Proofs.Playback.Program

/-!
# Every run delivers a prefix

A player executes a program up to its end or up to an action that stops: a check when playing
was cancelled, a message that the port refuses, or a bar without capacity.  What it completed
before has put the bytes of its playable messages on the port and left its last tempo, and
the action that stops changes nothing.  Whatever was played before, the port has therefore
received a prefix of what the piece has to say, `playPiece_delivers_prefix`.
-/

namespace MidiScore

namespace Message

theorem packets_append (first second : List Message) :
    packets (first ++ second) = packets first ++ packets second := by
  rw [packets, List.filter_append, List.filterMap_append, packets, packets]

theorem packets_singleton (message : Message) :
    packets [message] = message.bytes?.toList := by
  have playable := message.isSome_bytes?
  rw [packets, List.filter_cons, ← playable]
  cases sent : message.bytes? <;> simp [sent]

theorem tempoAfter_append (initial : UInt16) (first second : List Message) :
    tempoAfter initial (first ++ second) = tempoAfter (tempoAfter initial first) second := by
  rw [tempoAfter, List.filterMap_append, List.getLast?_append, Option.getD_or]
  rfl

theorem tempoAfter_singleton (initial : UInt16) (message : Message) :
    tempoAfter initial [message] = message.tempo?.getD initial := by
  cases tempo : message.tempo? <;> simp [tempoAfter, tempo]

end Message

namespace Playback

open Playback.Action

namespace Action

/-- The messages among some actions. -/
def messages (actions : List Action) : List Message :=
  actions.filterMap (·.message?)

theorem messages_append (first second : List Action) :
    messages (first ++ second) = messages first ++ messages second :=
  List.filterMap_append

theorem messages_ofPause (pause : Option Pause) : messages (ofPause pause) = [] := by
  cases pause <;> rfl

theorem messages_ofMessage (pause : Option Pause) (message : Message) :
    messages (ofMessage pause message) = [message] := by
  rw [ofMessage, messages_append, messages_append, messages_ofPause]
  rfl

theorem messages_ofTimed (previous : Int) (events : List TimedEvent) :
    messages (ofTimed previous events) = events.map (·.message) := by
  induction events generalizing previous with
  | nil => rfl
  | cons event rest ih =>
      rw [ofTimed, messages_append, messages_ofMessage, ih]
      rfl

theorem messages_ofEvents (position : Nat) (events : List Event) :
    messages (ofEvents position events) = events.map (·.message) := by
  induction events generalizing position with
  | nil => rfl
  | cons event rest ih =>
      rw [ofEvents, messages_append, messages_ofMessage, ih]
      rfl

theorem messages_ofBar (bar : Bar) : messages (ofBar bar) = bar.events.map (·.message) := by
  have measured : messages (.measure bar.meter :: ofPause (restOf bar)) = [] :=
    messages_ofPause (restOf bar)
  rw [ofBar, messages_append, messages_ofEvents, measured, List.append_nil]

theorem messages_program (piece : Piece) : messages piece.program = piece.messages := by
  cases piece with
  | events list =>
      cases list with
      | nil => rfl
      | cons first rest => exact messages_ofTimed first.nanos (first :: rest)
  | bars list =>
      induction list with
      | nil => rfl
      | cons bar rest ih =>
          change messages (ofBar bar ++ (Piece.bars rest).program) = _
          rw [messages_append, messages_ofBar, ih]
          simp [Piece.messages]

end Action

namespace Player

/-! ## Completed actions -/

/-- What a player has become by acting on some messages, all of which the port took. -/
structure ActedOn (player : Player) (messages : List Message) (next : Player) : Prop where
  sent : next.sent = player.sent ++ Message.packets messages
  tempo : next.tempo = Message.tempoAfter player.tempo messages
  limit : next.limit = player.limit
  cancelled : player.cancelled = true → next.cancelled = true

/-- The port takes no more messages. -/
def portIsFull (player : Player) : Bool :=
  player.limit.any (· ≤ player.sent.length)

/-- The reasons for which an action stops. -/
inductive StopsAt (player : Player) : Action → Stop → Prop where
  | cancelled (set : player.cancelled = true) : StopsAt player .check .cancelled
  | refused (message : Message) (playable : message.isPlayable = true)
      (full : player.portIsFull = true) : StopsAt player (.act message) .refused
  | unmeasurable (meter : Meter) (unmeasurable : meter.isMeasurable = false) :
      StopsAt player (.measure meter) .unmeasurable

variable {player next : Player}

theorem ActedOn.nil (player : Player) : player.ActedOn [] player :=
  ⟨(List.append_nil _).symm, rfl, rfl, id⟩

theorem ActedOn.trans {last : Player} {first second : List Message}
    (here : player.ActedOn first next) (later : next.ActedOn second last) :
    player.ActedOn (first ++ second) last where
  sent := by rw [later.sent, here.sent, Message.packets_append, List.append_assoc]
  tempo := by rw [later.tempo, here.tempo, Message.tempoAfter_append]
  limit := later.limit.trans here.limit
  cancelled := later.cancelled ∘ here.cancelled

theorem ActedOn.pass (player : Player) (moment : Moment) :
    player.ActedOn [] (player.pass moment) where
  sent := (List.append_nil _).symm
  tempo := rfl
  limit := rfl
  cancelled set := by simp [Player.pass, set]

theorem ActedOn.send {message : Message} {bytes : List UInt8} (player : Player)
    (sends : message.tempo? = none ∧ message.bytes? = some bytes)
    (free : player.portIsFull = false) :
    (player.send bytes).2 = none ∧ player.ActedOn [message] (player.send bytes).1 := by
  have notFull : ¬ player.limit.any (· ≤ player.sent.length) = true := by
    rw [← portIsFull, free]
    exact Bool.false_ne_true
  rw [Player.send, if_neg notFull]
  refine ⟨rfl, ?_, ?_, rfl, fun set => by simp [Player.pass, set]⟩
  · rw [Message.packets_singleton, sends.2]
    rfl
  · rw [Message.tempoAfter_singleton, sends.1]
    rfl

/-- A message is taken, or refused by a full port, which changes nothing. -/
theorem actedOn_or_refused (player : Player) (message : Message) :
    ((player.act message).2 = none ∧ player.ActedOn [message] (player.act message).1) ∨
      (player.act message = (player, some .refused) ∧
        player.StopsAt (.act message) .refused) := by
  rw [act]
  cases tempo : message.tempo? with
  | some bpm =>
      have silent : message.bytes? = none := by
        cases message with
        | tempo => rfl
        | _ => contradiction
      refine .inl ⟨rfl, ?_, ?_, rfl, id⟩
      · rw [Message.packets_singleton, silent]
        exact (List.append_nil _).symm
      · rw [Message.tempoAfter_singleton, tempo]
        rfl
  | none =>
      cases sent : message.bytes? with
      | none =>
          refine .inl ⟨rfl, ?_, ?_, rfl, id⟩
          · rw [Message.packets_singleton, sent]
            exact (List.append_nil _).symm
          · rw [Message.tempoAfter_singleton, tempo]
            rfl
      | some bytes =>
          cases full : player.portIsFull with
          | true =>
              have playable : message.isPlayable = true := by
                rw [← Message.isSome_bytes?, sent]
                rfl
              exact .inr ⟨if_pos full, .refused message playable full⟩
          | false => exact .inl (ActedOn.send player ⟨tempo, sent⟩ full)

/-- An action is completed, or it stops and changes nothing. -/
theorem completed_or_stopped (player : Player) (action : Action) :
    (∃ next, player.execute action = (next, none) ∧
        player.ActedOn action.message?.toList next) ∨
      ∃ stop, player.execute action = (player, some stop) ∧ player.StopsAt action stop := by
  cases action with
  | linger => exact .inl ⟨_, rfl, .pass player _⟩
  | sleep pause => exact .inl ⟨_, rfl, .pass player _⟩
  | check =>
      cases set : player.cancelled with
      | true => exact .inr ⟨.cancelled, by simp [execute, set], .cancelled set⟩
      | false => exact .inl ⟨player, by simp [execute, set], .nil player⟩
  | act message =>
      rcases player.actedOn_or_refused message with ⟨taken, acted⟩ | ⟨refused, stops⟩
      · exact .inl ⟨_, Prod.ext rfl taken, acted⟩
      · exact .inr ⟨.refused, refused, stops⟩
  | measure meter =>
      cases measurable : meter.isMeasurable with
      | true => exact .inl ⟨player, by simp [execute, measurable], .nil player⟩
      | false => exact .inr ⟨.unmeasurable, by simp [execute, measurable],
          .unmeasurable meter measurable⟩

theorem actedOn_of_executeAll {player next : Player} {done : List Action}
    (completed : player.executeAll done = (next, none)) :
    player.ActedOn (Action.messages done) next := by
  induction done generalizing player with
  | nil =>
      cases completed
      exact .nil next
  | cons action rest ih =>
      rw [executeAll] at completed
      rcases completed_or_stopped player action with
        ⟨middle, executed, acted⟩ | ⟨stop, executed, _⟩
      · rw [executed] at completed
        have later := acted.trans (ih completed)
        cases message : action.message? <;> simpa [Action.messages, message] using later
      · rw [executed, andThen] at completed
        cases completed

/-! ## How far a player comes -/

/-- A program is executed to its end, or up to an action that stops. -/
theorem exists_completed (player : Player) (program : List Action) :
    ∃ done left reached, program = done ++ left ∧ player.executeAll done = (reached, none) ∧
      (left = [] ∧ player.executeAll program = (reached, none) ∨
        ∃ action later stop, left = action :: later ∧ reached.StopsAt action stop ∧
          reached.execute action = (reached, some stop) ∧
          player.executeAll program = (reached, some stop)) := by
  induction program generalizing player with
  | nil => exact ⟨[], [], player, rfl, rfl, .inl ⟨rfl, rfl⟩⟩
  | cons action rest ih =>
      rcases completed_or_stopped player action with
        ⟨next, executed, _⟩ | ⟨stop, executed, stops⟩
      · have continued (more : List Action) :
            player.executeAll (action :: more) = next.executeAll more := by
          rw [executeAll, executed, andThen]
        rcases ih next with ⟨done, left, reached, rfl, completed, ends⟩
        refine ⟨action :: done, left, reached, rfl, ?_, ?_⟩
        · rw [continued, completed]
        · rwa [continued]
      · refine ⟨[], action :: rest, player, rfl, rfl, .inr ?_⟩
        refine ⟨action, rest, stop, rfl, stops, executed, ?_⟩
        rw [executeAll, executed, andThen]

end Player

/-! ## Bars without capacity -/

namespace Action

theorem measure_notMem_ofPause (meter : Meter) (pause : Option Pause) :
    .measure meter ∉ ofPause pause := by
  cases pause <;> simp [ofPause]

theorem measure_notMem_ofMessage (meter : Meter) (pause : Option Pause) (message : Message) :
    .measure meter ∉ ofMessage pause message := by
  simp [ofMessage, measure_notMem_ofPause]

theorem measure_notMem_ofTimed (meter : Meter) (previous : Int) (events : List TimedEvent) :
    .measure meter ∉ ofTimed previous events := by
  induction events generalizing previous with
  | nil => simp [ofTimed]
  | cons event rest ih => simp [ofTimed, measure_notMem_ofMessage, ih]

theorem measure_notMem_ofEvents (meter : Meter) (position : Nat) (events : List Event) :
    .measure meter ∉ ofEvents position events := by
  induction events generalizing position with
  | nil => simp [ofEvents]
  | cons event rest ih => simp [ofEvents, measure_notMem_ofMessage, ih]

/-- The meters that a program measures are those of its bars. -/
theorem isMeasurable_of_measure_mem {piece : Piece} {meter : Meter}
    (member : .measure meter ∈ piece.program) (measurable : piece.isMeasurable = true) :
    meter.isMeasurable = true := by
  cases piece with
  | events list =>
      cases list with
      | nil => contradiction
      | cons first rest => exact absurd member (measure_notMem_ofTimed meter _ _)
  | bars list =>
      rcases List.mem_flatMap.mp member with ⟨bar, inPiece, inBar⟩
      obtain rfl : meter = bar.meter := by
        simpa [ofBar, measure_notMem_ofEvents, measure_notMem_ofPause] using inBar
      exact List.all_eq_true.mp measurable bar inPiece

end Action

/-- Whatever was played before and whenever playing is cancelled: what the port receives of a
piece is a prefix of the bytes of its playable messages, those of the actions that were
completed, and the tempo is the last one among their messages, or the one from before.  At
the end of the piece the prefix is complete; if the port refuses a message, it is the next
one; and nothing else stops but a cancellation and a bar without capacity. -/
theorem playPiece_delivers_prefix (player : Player) (earlier : List Piece) (piece : Piece) :
    let before := player.afterPieces earlier
    let (after, stop) := before.playPiece piece
    ∃ done left, piece.program = done ++ left ∧ before.executeAll done = (after, none) ∧
      Action.messages done <+: piece.messages ∧
      after.sent = before.sent ++ Message.packets (Action.messages done) ∧
      Message.packets (Action.messages done) <+: Message.packets piece.messages ∧
      after.tempo = Message.tempoAfter before.tempo (Action.messages done) ∧
      match stop with
      | none => Message.packets (Action.messages done) = Message.packets piece.messages
      | some .refused => ∃ message bytes later, left = .act message :: later ∧
          message.bytes? = some bytes ∧ after.act message = (after, some .refused) ∧
          Message.packets (Action.messages done) ++ [bytes] <+: Message.packets piece.messages
      | some .cancelled => after.cancelled = true
      | some .unmeasurable => piece.isMeasurable = false := by
  intro before
  rcases before.exists_completed piece.program with
    ⟨done, left, reached, split, completed, ends⟩
  have acted := Player.actedOn_of_executeAll completed
  have messages : piece.messages = Action.messages done ++ Action.messages left := by
    rw [← Action.messages_program, split, Action.messages_append]
  have acting : Action.messages done <+: piece.messages := messages ▸ List.prefix_append _ _
  have packets := Message.packets_append (Action.messages done) (Action.messages left)
  rw [← messages] at packets
  have isPrefix : Message.packets (Action.messages done) <+: Message.packets piece.messages :=
    packets ▸ List.prefix_append _ _
  rw [before.playPiece_eq]
  rcases ends with ⟨rfl, executed⟩ | ⟨action, later, stop, rfl, stops, stopped, executed⟩
  · rw [executed]
    refine ⟨done, [], split, completed, acting, acted.sent, isPrefix, acted.tempo, ?_⟩
    rw [messages]
    exact congrArg Message.packets (List.append_nil _).symm
  · rw [executed]
    refine ⟨done, action :: later, split, completed, acting, acted.sent, isPrefix, acted.tempo,
      ?_⟩
    cases stops with
    | cancelled set => exact set
    | refused message playable full =>
        rw [← Message.isSome_bytes?] at playable
        rcases Option.isSome_iff_exists.mp playable with ⟨bytes, sends⟩
        refine ⟨message, bytes, later, rfl, sends, stopped, ?_⟩
        have next : Message.packets (Action.messages (.act message :: later)) =
            [bytes] ++ Message.packets (Action.messages later) := by
          have split : Action.messages (.act message :: later) =
              [message] ++ Action.messages later := rfl
          rw [split, Message.packets_append, Message.packets_singleton, sends]
          rfl
        rw [packets, next, ← List.append_assoc]
        exact List.prefix_append _ _
    | unmeasurable meter unmeasurable =>
        cases measurable : piece.isMeasurable with
        | false => rfl
        | true =>
            have member : .measure meter ∈ piece.program := by rw [split]; simp
            have found := Action.isMeasurable_of_measure_mem member measurable
            rw [unmeasurable] at found
            contradiction

end Playback

end MidiScore
