import MidiScore.Playback.Program

/-!
# Playing is executing a program

Both loops of a player, over events and over bars, do what the program of the piece says, one
action after the other: `Player.playPiece_eq`.
-/

namespace MidiScore.Playback

open Playback.Action

namespace Player

variable (player : Player)

/-! ## Both loops are programs -/

theorem andThen_assoc (step : Player × Option Stop)
    (first second : Player → Player × Option Stop) :
    andThen (andThen step first) second =
      andThen step fun player => andThen (first player) second := by
  rcases step with ⟨reached, _ | stop⟩ <;> rfl

theorem executeAll_append (first second : List Action) :
    player.executeAll (first ++ second) =
      andThen (player.executeAll first) fun player => player.executeAll second := by
  induction first generalizing player with
  | nil => rfl
  | cons action rest ih =>
      rw [List.cons_append, executeAll, executeAll, andThen_assoc]
      exact congrArg (andThen _) (funext ih)

theorem exists_of_executeAll_append {first second : List Action} {reached : Player}
    (completed : player.executeAll (first ++ second) = (reached, none)) :
    ∃ middle, player.executeAll first = (middle, none) ∧
      middle.executeAll second = (reached, none) := by
  rw [executeAll_append] at completed
  rcases executed : player.executeAll first with ⟨middle, _ | stop⟩
  · rw [executed] at completed
    exact ⟨middle, rfl, completed⟩
  · rw [executed] at completed
    cases completed

theorem executeAll_check :
    player.executeAll [.check] = (player, if player.cancelled then some .cancelled else none) := by
  rw [executeAll, execute]
  cases player.cancelled <;> rfl

theorem look_eq : player.look = player.executeAll [.linger, .check] :=
  (executeAll_check _).symm

theorem wait_eq (pause : Pause) :
    player.wait (player.length pause) = player.executeAll (ofPause (some pause)) := by
  have split : ofPause (some pause) = [.linger, .check] ++ [.sleep pause, .check] := rfl
  have elapsed : player.length pause = player.look.1.length pause := by cases pause <;> rfl
  rw [split, executeAll_append, ← look_eq, wait, elapsed]
  rcases player.look with ⟨before, _ | stop⟩
  · exact (executeAll_check _).symm
  · rfl

theorem waitFor_eq (pause : Option Pause) :
    player.waitFor (pause.map player.length) = player.executeAll (ofPause pause) := by
  cases pause with
  | none => rfl
  | some pause => exact player.wait_eq pause

theorem dispatch_eq (message : Message) :
    player.dispatch message = player.executeAll [.linger, .act message] := by
  rw [dispatch, executeAll, execute, andThen, executeAll, execute]
  rcases Player.act _ message with ⟨reached, _ | stop⟩ <;> rfl

/-- A look, a wait and a message are executed as the actions for the message. -/
theorem executeAll_ofMessage (pause : Option Pause) (message : Message) :
    player.executeAll (ofMessage pause message) =
      andThen player.look fun player =>
      andThen (player.waitFor (pause.map player.length)) fun player =>
      player.dispatch message := by
  simp only [ofMessage, executeAll_append, ← look_eq, ← waitFor_eq, ← dispatch_eq]

theorem ahead?_eq (position target : Nat) :
    player.ahead? position target = (Pause.between? position target).map player.length := by
  rw [ahead?, Pause.between?]
  split <;> rfl

theorem delay?_eq (previous next : Int) :
    delay? previous next = ((delay? previous next).map Pause.nanos).map player.length := by
  cases delay? previous next <;> rfl

theorem playFrom_eq (previous : Int) (events : List TimedEvent) :
    player.playFrom previous events = player.executeAll (ofTimed previous events) := by
  induction events generalizing player previous with
  | nil => rfl
  | cons event rest ih =>
      simp only [playFrom, ofTimed, executeAll_append, executeAll_ofMessage, andThen_assoc,
        ← delay?_eq, ih]

theorem play_eq (events : List TimedEvent) :
    player.play events = player.executeAll (Piece.events events).program := by
  cases events with
  | nil => rfl
  | cons first rest => exact player.playFrom_eq first.nanos (first :: rest)

theorem playEvents_eq (position : Nat) (events : List Event) :
    (player.playEvents position events).1 = player.executeAll (ofEvents position events) ∧
      ((player.playEvents position events).1.2 = none →
        (player.playEvents position events).2 = lastPosition position events) := by
  induction events generalizing player position with
  | nil => exact ⟨rfl, fun _ => rfl⟩
  | cons event rest ih =>
      have here :=
        player.executeAll_ofMessage (Pause.between? position event.position) event.message
      simp only [← ahead?_eq] at here
      rw [playEvents, ofEvents, executeAll_append, here]
      generalize andThen player.look _ = step
      rcases step with ⟨next, _ | stop⟩
      · exact ih next (max position event.position)
      · exact ⟨rfl, nofun⟩

theorem playBar_eq (bar : Bar) : player.playBar bar = player.executeAll (ofBar bar) := by
  rcases player.playEvents_eq 0 bar.events with ⟨events_eq, position_eq⟩
  rw [playBar, ofBar, executeAll_append, ← events_eq]
  generalize player.playEvents 0 bar.events = result at position_eq ⊢
  rcases result with ⟨⟨next, _ | stop⟩, position⟩
  · obtain rfl : position = lastPosition 0 bar.events := position_eq rfl
    simp only [andThen, executeAll, execute]
    cases bar.meter.isMeasurable with
    | true =>
        simp only [if_true, ← waitFor_eq, restOf]
        cases bar.isZeroDuration with
        | true => rfl
        | false => simp [ahead?_eq]
    | false => rfl
  · rfl

theorem playBars_eq (bars : List Bar) :
    player.playBars bars = player.executeAll (Piece.bars bars).program := by
  induction bars generalizing player with
  | nil => rfl
  | cons bar rest ih =>
      rw [playBars, Piece.program, List.flatMap_cons, executeAll_append, playBar_eq]
      exact congrArg (andThen _) (funext ih)

/-- Playing a piece is executing its program. -/
theorem playPiece_eq (piece : Piece) :
    player.playPiece piece = player.executeAll piece.program := by
  cases piece with
  | events list => exact player.play_eq list
  | bars list => exact player.playBars_eq list

end Player

end MidiScore.Playback
