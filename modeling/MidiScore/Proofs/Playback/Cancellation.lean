import Mathlib.Data.List.Basic
import MidiScore.Proofs.Playback.Prefix

/-!
# Playing stops once it was cancelled

In every program a message comes a moment after a check, so that there is at most one message
between two checks, `admits_program`.  A player that was cancelled stops at the next check.  So
it sends at most one more message, and only if it was cancelled after the last look or sleep
before this message, in the moment when it was due: `playPiece_stops_when_cancelled`.
-/

namespace MidiScore.Playback

open Playback.Action

/-- Where a cancelled player stops: at the next check, if there is one. -/
def Action.stopAhead (todo : List Action) : Option Stop :=
  if .check ∈ todo then some .cancelled else none

/-- Where a player stands between two checks. -/
inductive Phase where
  /-- No message may come before the next check. -/
  | idle
  /-- Right behind a check. -/
  | checked
  /-- A moment behind a check, when a message may come. -/
  | due
  deriving Repr, DecidableEq

namespace Phase

/-- The phase after an action. -/
def after : Phase → Action → Phase
  | _, .check => .checked
  | .checked, .linger => .due
  | _, _ => .idle

/-- From this phase on, messages come only when they are due. -/
def Admits (phase : Phase) : List Action → Prop
  | [] => True
  | action :: rest =>
      (action.message?.isSome = true → phase = .due) ∧ (phase.after action).Admits rest

theorem admits_append {phase : Phase} {first second : List Action} :
    phase.Admits (first ++ second) ↔
      phase.Admits first ∧ (first.foldl after phase).Admits second := by
  induction first generalizing phase with
  | nil => simp [Admits]
  | cons action rest ih => rw [List.cons_append, Admits, Admits, ih, and_assoc, List.foldl_cons]

theorem admits_ofPause (phase : Phase) (pause : Option Pause) : phase.Admits (ofPause pause) := by
  cases pause <;> simp [ofPause, Admits, Action.message?]

theorem admits_ofMessage (phase : Phase) (pause : Option Pause) (message : Message) :
    phase.Admits (ofMessage pause message) := by
  cases pause <;> simp [ofMessage, ofPause, Admits, Action.message?, after]

theorem admits_ofTimed (phase : Phase) (previous : Int) (events : List TimedEvent) :
    phase.Admits (ofTimed previous events) := by
  induction events generalizing phase previous with
  | nil => trivial
  | cons event rest ih => exact admits_append.mpr ⟨phase.admits_ofMessage _ _, ih _ _⟩

theorem admits_ofEvents (phase : Phase) (position : Nat) (events : List Event) :
    phase.Admits (ofEvents position events) := by
  induction events generalizing phase position with
  | nil => trivial
  | cons event rest ih => exact admits_append.mpr ⟨phase.admits_ofMessage _ _, ih _ _⟩

theorem admits_ofBar (phase : Phase) (bar : Bar) : phase.Admits (ofBar bar) :=
  admits_append.mpr ⟨phase.admits_ofEvents 0 bar.events, nofun, admits_ofPause _ _⟩

/-- Unless a player stands right behind a check, no message is left before the next one but
a message that comes at once. -/
theorem Admits.idle_or_act {phase : Phase} {todo : List Action} (admits : phase.Admits todo)
    (notChecked : phase ≠ .checked) :
    Phase.idle.Admits todo ∨
      ∃ message later, todo = .act message :: later ∧ Phase.idle.Admits later := by
  cases todo with
  | nil => exact .inl trivial
  | cons action rest =>
      cases action with
      | act message =>
          obtain rfl : phase = .due := admits.1 rfl
          exact .inr ⟨message, rest, rfl, admits.2⟩
      | linger =>
          cases phase with
          | checked => contradiction
          | idle | due => exact .inl ⟨nofun, admits.2⟩
      | _ => exact .inl ⟨nofun, by cases phase <;> exact admits.2⟩

/-- In every program messages come only when they are due. -/
theorem admits_program (phase : Phase) (piece : Piece) : phase.Admits piece.program := by
  cases piece with
  | events list =>
      cases list with
      | nil => trivial
      | cons first rest => exact phase.admits_ofTimed first.nanos (first :: rest)
  | bars list =>
      induction list generalizing phase with
      | nil => trivial
      | cons bar rest ih => exact admits_append.mpr ⟨phase.admits_ofBar bar, ih _⟩

/-- A message is due only in the moment right behind a check. -/
theorem exists_checked_of_due {done : List Action} (due : done.foldl after .idle = .due) :
    ∃ before, done = before ++ [.linger] ∧ before.foldl after .idle = .checked := by
  rcases List.eq_nil_or_concat' done with rfl | ⟨before, last, rfl⟩
  · contradiction
  · rw [List.foldl_append, List.foldl_cons, List.foldl_nil] at due
    refine ⟨before, ?_⟩
    cases phase : before.foldl after .idle <;> cases last <;> rw [phase] at due <;>
      first | contradiction | exact ⟨rfl, rfl⟩

end Phase

/-- A piece without checks has no event and nothing to wait for. -/
theorem Piece.isIdle_of_check_notMem {piece : Piece} (noCheck : .check ∉ piece.program) :
    piece.isIdle = true := by
  cases piece with
  | events list =>
      cases list with
      | nil => rfl
      | cons first rest => simp [program, ofTimed, ofMessage] at noCheck
  | bars list =>
      apply List.all_eq_true.mpr
      intro bar member
      have here : .check ∉ ofBar bar := by
        intro found
        exact noCheck (List.mem_flatMap.mpr ⟨bar, member, found⟩)
      cases events : bar.events with
      | cons first rest => simp [ofBar, events, ofEvents, ofMessage] at here
      | nil =>
          -- a bar without events takes up time, so it is waited for unless it is empty
          have silent : bar.isZeroDuration = false := by simp [Bar.isZeroDuration, events]
          have atOnce : ¬ 0 < bar.capacity := by
            intro lasts
            simp [ofBar, events, ofEvents, restOf, silent, lastPosition, Pause.between?, lasts,
              ofPause] at here
          simp [Nat.eq_zero_of_not_pos atOnce]

namespace Player

variable {player reached : Player}

/-- A player that has come past a check was not cancelled then. -/
theorem cancelled_eq_false_of_checked {phase : Phase} {done : List Action}
    (start : phase = .checked → player.cancelled = false)
    (completed : player.executeAll done = (reached, none))
    (checked : done.foldl Phase.after phase = .checked) : reached.cancelled = false := by
  induction done generalizing player phase with
  | nil =>
      cases completed
      exact start checked
  | cons action rest ih =>
      rw [executeAll] at completed
      rcases executed : player.execute action with ⟨next, _ | stop⟩
      · rw [executed] at completed
        refine ih ?_ completed checked
        intro atCheck
        obtain rfl : action = .check := by
          cases phase <;> cases action <;> first | rfl | contradiction
        cases set : player.cancelled with
        | false =>
            simp only [execute, Prod.mk.injEq] at executed
            rw [← executed.1, set]
        | true => simp [execute, set] at executed
      · rw [executed] at completed
        cases completed

/-- A cancelled player that has no message due sends nothing any more and stops at the next
check, if there is one.  Only a bar without capacity can stop it before. -/
theorem executeAll_of_idle {todo : List Action} (admits : Phase.idle.Admits todo)
    (cancelled : player.cancelled = true) :
    (player.executeAll todo).1.sent = player.sent ∧
      ((player.executeAll todo).2 = stopAhead todo ∨
        (player.executeAll todo).2 = some .unmeasurable ∧
          ∃ meter, .measure meter ∈ todo ∧ meter.isMeasurable = false) := by
  induction todo generalizing player with
  | nil => exact ⟨rfl, .inl rfl⟩
  | cons action rest ih =>
      rcases admits with ⟨notDue, admitsRest⟩
      have silent : action.message? = none := by
        cases message : action.message? with
        | none => rfl
        | some _ => exact absurd (notDue (by rw [message]; rfl)) (by decide)
      rcases completed_or_stopped player action with
        ⟨next, executed, acted⟩ | ⟨stop, executed, stops⟩
      · have passed : action ≠ .check := by
          rintro rfl
          simp [execute, cancelled] at executed
        have stillIdle : Phase.idle.after action = .idle := by
          cases action <;> first | rfl | contradiction
        rw [silent] at acted
        rw [stillIdle] at admitsRest
        rcases ih admitsRest (acted.cancelled cancelled) with ⟨sent, stop⟩
        have sameStop : stopAhead (action :: rest) = stopAhead rest := by
          simp [stopAhead, passed.symm]
        rw [executeAll, executed, andThen, sameStop]
        refine ⟨sent.trans (acted.sent.trans (List.append_nil _)), stop.imp_right ?_⟩
        rintro ⟨stopped, meter, member, unmeasurable⟩
        exact ⟨stopped, meter, List.mem_cons_of_mem _ member, unmeasurable⟩
      · rw [executeAll, executed, andThen]
        refine ⟨rfl, ?_⟩
        cases stops with
        | cancelled set => exact .inl (if_pos List.mem_cons_self).symm
        | refused message playable full => contradiction
        | unmeasurable meter unmeasurable =>
            exact .inr ⟨rfl, meter, List.mem_cons_self, unmeasurable⟩

/-- A cancelled player takes at most the message that comes at once, and then nothing any
more. -/
theorem executeAll_of_act {message : Message} {later : List Action}
    (admits : Phase.idle.Admits later) (cancelled : player.cancelled = true) :
    let result := player.executeAll (.act message :: later)
    (result.1.sent = player.sent ++ message.bytes?.toList ∧
        (result.2 = stopAhead (.act message :: later) ∨
          result.2 = some .unmeasurable ∧
            ∃ meter, .measure meter ∈ later ∧ meter.isMeasurable = false)) ∨
      (result = (player, some .refused) ∧ player.act message = (player, some .refused)) := by
  intro result
  rcases actedOn_or_refused player message with ⟨taken, acted⟩ | ⟨refused, _⟩
  · have goesOn : result = (player.act message).1.executeAll later := by
      have split : player.act message = ((player.act message).1, none) := Prod.ext rfl taken
      simp only [result, executeAll, execute]
      rw [split, andThen]
    rcases executeAll_of_idle admits (acted.cancelled cancelled) with ⟨sent, stop⟩
    have sameStop : stopAhead (.act message :: later) = stopAhead later := by simp [stopAhead]
    rw [goesOn, sameStop, ← Message.packets_singleton, ← acted.sent]
    exact .inl ⟨sent, stop⟩
  · refine .inr ⟨?_, refused⟩
    simp only [result, executeAll, execute, refused, andThen]

/-- A cancelled player sends at most one more message, and only one that comes at once. -/
theorem executeAll_of_cancelled {phase : Phase} {todo : List Action} (admits : phase.Admits todo)
    (notChecked : phase ≠ .checked) (cancelled : player.cancelled = true) :
    let result := player.executeAll todo
    (∃ further : List (List UInt8), result.1.sent = player.sent ++ further ∧
      further.length ≤ 1 ∧ (further ≠ [] → ∃ message later, todo = .act message :: later)) ∧
    (result.2 = stopAhead todo ∨
      (result = (player, some .refused) ∧ ∃ message later, todo = .act message :: later ∧
        player.act message = (player, some .refused)) ∨
      (result.2 = some .unmeasurable ∧
        ∃ meter, .measure meter ∈ todo ∧ meter.isMeasurable = false)) := by
  intro result
  rcases admits.idle_or_act notChecked with idle | ⟨message, later, rfl, idle⟩
  · rcases executeAll_of_idle idle cancelled with ⟨sent, stop⟩
    have nothing : result.1.sent = player.sent ++ [] := sent.trans (List.append_nil _).symm
    exact ⟨⟨[], nothing, Nat.zero_le 1, fun more => absurd rfl more⟩, stop.imp_right .inr⟩
  · rcases executeAll_of_act idle cancelled with ⟨sent, stop⟩ | ⟨unchanged, refused⟩
    · refine ⟨⟨message.bytes?.toList, sent, ?_, fun _ => ⟨message, later, rfl⟩⟩, ?_⟩
      · cases message.bytes? <;> simp
      · refine stop.imp_right fun ⟨stopped, meter, member, unmeasurable⟩ => .inr ?_
        exact ⟨stopped, meter, List.mem_cons_of_mem _ member, unmeasurable⟩
    · have nothing : result.1.sent = player.sent ++ [] := by
        rw [List.append_nil]
        exact congrArg (·.1.sent) unchanged
      refine ⟨⟨[], nothing, Nat.zero_le 1, fun more => absurd rfl more⟩, .inr (.inl ?_)⟩
      exact ⟨unchanged, message, later, rfl, refused⟩

end Player

/-- Wherever playing a piece has come to when it is cancelled, be it before the piece, between
any two actions, or while time passes or the port takes a message: it sends at most one more
message, and one only if it was not cancelled before the moment in which this message is due,
behind the last look and the last sleep before it.  It stops as cancelled at the next look or
sleep, if any is left, unless the port refuses the message that was due, or a bar has no
capacity.  If it was cancelled before the piece it sends nothing, and comes to the end only of
a piece with no event and nothing to wait for. -/
theorem playPiece_stops_when_cancelled {player reached : Player} {piece : Piece}
    {done todo : List Action} (split : piece.program = done ++ todo)
    (completed : player.executeAll done = (reached, none))
    (cancelled : reached.cancelled = true) :
    let result := player.playPiece piece
    (∃ further : List (List UInt8), result.1.sent = reached.sent ++ further ∧
      further.length ≤ 1 ∧ (further ≠ [] → ∃ before message later middle,
        done = before ++ [.linger] ∧ todo = .act message :: later ∧
          player.executeAll before = (middle, none) ∧ middle.cancelled = false)) ∧
    (result.2 = stopAhead todo ∨
      (result = (reached, some .refused) ∧ ∃ message later, todo = .act message :: later ∧
        reached.act message = (reached, some .refused)) ∨
      (result.2 = some .unmeasurable ∧ piece.isMeasurable = false)) ∧
    (done = [] → result.1.sent = player.sent ∧ (result.2 = none → piece.isIdle = true)) := by
  intro result
  have result_eq : result = reached.executeAll todo := by
    simp only [result, player.playPiece_eq, split, player.executeAll_append, completed,
      Player.andThen]
  have admits : (done.foldl Phase.after .idle).Admits todo := by
    have whole := Phase.admits_program .idle piece
    rw [split] at whole
    exact (Phase.admits_append.mp whole).2
  have start : Phase.idle = .checked → player.cancelled = false := by
    intro atCheck
    contradiction
  have notChecked : done.foldl Phase.after .idle ≠ .checked := by
    intro checked
    rw [Player.cancelled_eq_false_of_checked start completed checked] at cancelled
    contradiction
  have unmeasurable_of_mem
      (stopped : ∃ meter, .measure meter ∈ todo ∧ meter.isMeasurable = false) :
      piece.isMeasurable = false := by
    rcases stopped with ⟨meter, member, unmeasurable⟩
    have inProgram : .measure meter ∈ piece.program := split ▸ List.mem_append_right done member
    apply Bool.eq_false_iff.mpr
    intro measurable
    rw [Action.isMeasurable_of_measure_mem inProgram measurable] at unmeasurable
    contradiction
  rcases Player.executeAll_of_cancelled admits notChecked cancelled with
    ⟨⟨further, sent, short, due⟩, stop⟩
  rw [result_eq]
  refine ⟨⟨further, sent, short, ?_⟩,
    stop.imp_right (Or.imp_right (And.imp_right unmeasurable_of_mem)), ?_⟩
  · intro more
    rcases due more with ⟨message, later, rfl⟩
    rcases Phase.exists_checked_of_due (admits.1 rfl) with ⟨before, rfl, checked⟩
    rcases player.exists_of_executeAll_append completed with ⟨middle, reachedCheck, _⟩
    exact ⟨before, message, later, middle, rfl, rfl, reachedCheck,
      Player.cancelled_eq_false_of_checked start reachedCheck checked⟩
  · rintro rfl
    cases completed
    rcases Player.executeAll_of_idle admits cancelled with ⟨sent, stop⟩
    refine ⟨sent, fun finished => Piece.isIdle_of_check_notMem ?_⟩
    intro found
    rw [split, List.nil_append] at found
    have stopped : stopAhead todo = some .cancelled := if_pos found
    rw [finished, stopped] at stop
    rcases stop with stop | ⟨stop, _⟩ <;> contradiction

/-- Cancelled after the look at the first event: its message is due and still sent, and the
look at the second event stops. -/
theorem playPiece_stops_when_cancelled_at_strike :
    let struck : TimedEvent := ⟨.voice 0 (.noteOn 60 100), 0, 0⟩
    let released : TimedEvent := ⟨.voice 0 (.noteOff 60), 960, 500000000⟩
    let player := Player.start 120 none fun moment => 2 ≤ moment.steps
    let reached := (player.executeAll [.linger, .check, .linger]).1
    let result := player.playPiece (.events [struck, released])
    player.cancelled = false ∧ reached.cancelled = true ∧ reached.sent = [] ∧
      (∃ further, result.1.sent = reached.sent ++ further ∧ further.length ≤ 1) ∧
      result.1.sent = [[0x90, 60, 100]] ∧ result.2 = some .cancelled := by
  intro struck released player reached result
  have split : (Piece.events [struck, released]).program =
      [.linger, .check, .linger] ++
        .act struck.message :: ofTimed 0 [released] := rfl
  have completed : player.executeAll [.linger, .check, .linger] = (reached, none) := rfl
  rcases playPiece_stops_when_cancelled split completed rfl with
    ⟨⟨further, sent, short, _⟩, _, _⟩
  exact ⟨rfl, rfl, rfl, ⟨further, sent, short⟩, by decide, by decide⟩

end MidiScore.Playback
