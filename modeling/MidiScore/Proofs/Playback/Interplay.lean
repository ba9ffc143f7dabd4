import MidiScore.Playback.Interplay

/-!
# Cancellation is sticky and never spurious

While calls on a token take turns, its flag is up exactly if some cancellation has raised it,
and a wake-up is only ever left behind a raised flag.  This invariant, `Sound`, is kept by every
move.  So no wait is cut short unless the token was set before, and whoever begins to wait, or
looks, after that finds it set, whatever has become of the wake-up and of the cancellers.
-/

namespace MidiScore.Playback

namespace CancelToken

variable {token : CancelToken}

@[simp]
theorem flag_signal : token.signal.flag = token.flag := by
  rw [signal]
  split <;> rfl

@[simp]
theorem flag_listen : token.listen.2.flag = token.flag := by
  fun_cases listen token <;> rfl

theorem wakeups_signal_le (fits : token.wakeups ≤ room) : token.signal.wakeups ≤ room := by
  rw [signal]
  split
  · assumption
  · exact fits

theorem wakeups_listen_le : token.listen.2.wakeups ≤ token.wakeups := by
  fun_cases listen token
  · exact Nat.sub_le _ _
  · exact Nat.le_refl _
  · exact Nat.le_refl _

/-- Whoever listens finds a wake-up exactly if one was left. -/
theorem listen_fst_eq_wakeup_iff : token.listen.1 = .wakeup ↔ 0 < token.wakeups := by
  fun_cases listen token <;> simp [*]

end CancelToken

namespace Call

variable {call : Call} {token : CancelToken}

/-- Whether the call is a cancellation that has raised the flag. -/
def hasRaised : Call → Bool
  | .cancel .raised | .cancel .returned => true
  | _ => false

/-! ## One step of a call -/

theorem kind_proceed : (call.proceed token).1.kind = call.kind := by
  fun_cases proceed call token <;> rfl

/-- Only the first step of a cancellation raises the flag, and none lowers it. -/
theorem flag_proceed :
    (call.proceed token).2.flag = true ↔ token.flag = true ∨ call = .cancel .begun := by
  fun_cases proceed call token <;> simp [CancelToken.raise]

theorem hasRaised_proceed :
    (call.proceed token).1.hasRaised = true ↔
      call.hasRaised = true ∨ call = .cancel .begun := by
  fun_cases proceed call token <;> simp [hasRaised]

theorem wakeups_proceed_le (fits : token.wakeups ≤ CancelToken.room) :
    (call.proceed token).2.wakeups ≤ CancelToken.room := by
  fun_cases proceed call token with
  | case2 => exact CancelToken.wakeups_signal_le fits
  | case5 => exact Nat.le_trans CancelToken.wakeups_listen_le fits
  | _ => exact fits

/-- Only a cancellation that has raised the flag leaves a wake-up. -/
theorem wakeups_pos_of_proceed :
    0 < (call.proceed token).2.wakeups → 0 < token.wakeups ∨ call.hasRaised = true := by
  fun_cases proceed call token with
  | case2 => exact fun _ => .inr rfl
  | case5 => exact fun woken => .inl (Nat.lt_of_lt_of_le woken CancelToken.wakeups_listen_le)
  | _ => exact .inl

/-- A call that finds its token set has seen the flag up, or a wake-up. -/
theorem of_answer?_proceed :
    (call.proceed token).1.answer? = some true →
      call.answer? = some true ∨ token.flag = true ∨ 0 < token.wakeups := by
  fun_cases proceed call token with
  | case5 =>
      cases finding : token.listen.1 with
      | wakeup => exact fun _ => .inr (.inr (CancelToken.listen_fst_eq_wakeup_iff.mp finding))
      | nothing | nobody => exact nofun
  | _ => simp_all [answer?, CancelToken.isCancelled]

/-- Behind a raised flag a wait or a look is over with its first step. -/
theorem answer?_proceed_first {kind : Kind} (reads : kind ≠ .cancel)
    (raised : token.flag = true) : (kind.first.proceed token).1.answer? = some true := by
  cases kind with
  | cancel => contradiction
  | wait | look => simp [Kind.first, proceed, answer?, CancelToken.isCancelled, raised]

theorem kind_of_hasRaised (raised : call.hasRaised = true) : call.kind = .cancel := by
  cases call with
  | cancel => rfl
  | wait | look => contradiction

theorem isOver_of_unanswered (reads : call.kind ≠ .cancel) (unanswered : call.answer? = none) :
    call.isOver = false := by
  fun_cases isOver call with
  | case1 => exact absurd rfl reads
  | case2 | case3 => contradiction
  | case4 => rfl

theorem isOver_of_answer? {answer : Bool} (answered : call.answer? = some answer) :
    call.isOver = true := by
  fun_cases answer? call <;> simp_all [answer?, isOver]

theorem isOver_alone (call : Call) (token : CancelToken) :
    (call.alone token).1.isOver = true := by
  fun_induction alone call token with
  | case1 _ _ returned => exact returned
  | case2 _ _ _ ih => exact ih

end Call

namespace Interplay

variable {play next final : Interplay} {move : Move} {moves : List Move}

/-! ## One move -/

/-- What a move does. -/
inductive Step (play : Interplay) : Move → Interplay → Prop where
  /-- The number of cancellers changes. -/
  | drift {move : Move} (count : Nat) (idle : move = .clone ∨ move = .drop) :
      Step play move ⟨{ play.token with cancellers := count }, play.calls⟩
  | call (kind : Call.Kind) :
      Step play (.call kind) { play with calls := play.calls ++ [kind.first] }
  | proceed {index : Nat} {call : Call} (found : play.calls[index]? = some call)
      (running : call.isOver = false) :
      Step play (.proceed index)
        ⟨(call.proceed play.token).2, play.calls.set index (call.proceed play.token).1⟩

theorem step_of_step? (moved : play.step? move = some next) : play.Step move next := by
  cases move with
  | clone =>
      rcases Option.ite_none_right_eq_some.mp moved with ⟨_, ⟨⟩⟩
      exact .drift _ (.inl rfl)
  | drop =>
      rcases Option.ite_none_right_eq_some.mp moved with ⟨_, ⟨⟩⟩
      exact .drift _ (.inr rfl)
  | call kind =>
      rcases Option.ite_none_left_eq_some.mp moved with ⟨_, ⟨⟩⟩
      exact .call kind
  | proceed index =>
      rw [step?] at moved
      split at moved
      · contradiction
      next call found =>
        rcases Option.ite_none_left_eq_some.mp moved with ⟨running, ⟨⟩⟩
        exact .proceed found (Bool.eq_false_iff.mpr running)

theorem run_cons_eq_some_iff :
    play.run (move :: moves) = some final ↔
      ∃ next, play.step? move = some next ∧ next.run moves = some final := by
  rw [run, List.foldlM_cons]
  exact Option.bind_eq_some_iff

/-- What every move keeps, a run keeps. -/
theorem keeps_of_run {motive : Interplay → Prop}
    (keeps : ∀ move ∈ moves, ∀ play next : Interplay, play.Step move next → motive play →
      motive next)
    (ran : play.run moves = some final) (before : motive play) : motive final := by
  induction moves generalizing play with
  | nil =>
      cases ran
      exact before
  | cons move rest ih =>
      rcases run_cons_eq_some_iff.mp ran with ⟨next, moved, later⟩
      rcases List.forall_mem_cons.mp keeps with ⟨here, others⟩
      exact ih others later (here play next (step_of_step? moved) before)

/-! ## Flag and wake-ups -/

/-- Some cancellation has raised the flag. -/
def IsRaised (play : Interplay) : Prop :=
  ∃ call ∈ play.calls, call.hasRaised = true

/-- Some call still satisfies what one did before, if the one that has done a step keeps it. -/
theorem exists_mem_set {calls : List Call} {index : Nat} {old new : Call} {holds : Call → Prop}
    (found : calls[index]? = some old) (kept : holds old → holds new)
    (before : ∃ call ∈ calls, holds call) : ∃ call ∈ calls.set index new, holds call := by
  rcases before with ⟨call, member, isHeld⟩
  rcases List.mem_iff_getElem?.mp member with ⟨other, here⟩
  by_cases same : index = other
  · subst same
    rw [found] at here
    cases here
    exact ⟨new, List.mem_set (List.getElem?_eq_some_iff.mp found).1 new, kept isHeld⟩
  · exact ⟨call, List.mem_of_getElem? (List.getElem?_set_ne same ▸ here), isHeld⟩

theorem isRaised_proceed {index : Nat} {call : Call} (found : play.calls[index]? = some call) :
    IsRaised ⟨(call.proceed play.token).2, play.calls.set index (call.proceed play.token).1⟩ ↔
      play.IsRaised ∨ call = .cancel .begun := by
  constructor
  · rintro ⟨other, listed, raised⟩
    rcases List.mem_or_eq_of_mem_set listed with before | rfl
    · exact .inl ⟨other, before, raised⟩
    · exact (Call.hasRaised_proceed.mp raised).imp_left fun before =>
        ⟨call, List.mem_of_getElem? found, before⟩
  · rintro (raised | begun)
    · exact exists_mem_set found (fun raised => Call.hasRaised_proceed.mpr (.inl raised)) raised
    · exact ⟨_, List.mem_set (List.getElem?_eq_some_iff.mp found).1 _,
        Call.hasRaised_proceed.mpr (.inr begun)⟩

/-- What holds of a token and its calls at every moment. -/
structure Sound (play : Interplay) : Prop where
  wakeups_le : play.token.wakeups ≤ CancelToken.room
  flag_iff : play.token.flag = true ↔ play.IsRaised
  flag_of_wakeup : 0 < play.token.wakeups → play.token.flag = true
  flag_of_answer : ∀ call ∈ play.calls, call.answer? = some true → play.token.flag = true

theorem Step.sound (step : play.Step move next) (sound : play.Sound) : next.Sound := by
  cases step with
  | drift => exact ⟨sound.wakeups_le, sound.flag_iff, sound.flag_of_wakeup, sound.flag_of_answer⟩
  | call kind =>
      have fresh : kind.first.hasRaised = false ∧ kind.first.answer? = none := by
        cases kind <;> exact ⟨rfl, rfl⟩
      refine ⟨sound.wakeups_le, ?_, sound.flag_of_wakeup, ?_⟩
      · simpa [IsRaised, or_and_right, exists_or, fresh.1] using sound.flag_iff
      · simpa [or_imp, forall_and, fresh.2] using sound.flag_of_answer
  | @proceed index call found running =>
      have member := List.mem_of_getElem? found
      have stays : play.token.flag = true → (call.proceed play.token).2.flag = true := fun up =>
        Call.flag_proceed.mpr (.inl up)
      -- Both a wake-up that is left and one that is taken stand behind a raised flag.
      refine ⟨Call.wakeups_proceed_le sound.wakeups_le, ?_, ?_, ?_⟩
      · rw [Call.flag_proceed, isRaised_proceed found, sound.flag_iff]
      · intro woken
        rcases Call.wakeups_pos_of_proceed woken with before | raised
        · exact stays (sound.flag_of_wakeup before)
        · exact stays (sound.flag_iff.mpr ⟨call, member, raised⟩)
      · intro other listed answered
        rcases List.mem_or_eq_of_mem_set listed with before | rfl
        · exact stays (sound.flag_of_answer other before answered)
        · rcases Call.of_answer?_proceed answered with before | up | woken
          · exact stays (sound.flag_of_answer call member before)
          · exact stays up
          · exact stays (sound.flag_of_wakeup woken)

theorem sound_start {token : CancelToken} (isNew : token = .connected ∨ token = .never) :
    (start token).Sound := by
  rcases isNew with rfl | rfl <;>
    exact ⟨Nat.zero_le _, by simp [start, IsRaised, CancelToken.connected, CancelToken.never],
      nofun, nofun⟩

/-! ## Calls that begin later -/

/-- The flag is up, and the call at the index reports that with its first step, if it has done
one. -/
structure Reports (play : Interplay) (index : Nat) (kind : Call.Kind) : Prop where
  raised : play.token.flag = true
  prompt : ∃ call, play.calls[index]? = some call ∧
    (call = kind.first ∨ call.answer? = some true)

theorem Step.reports {index : Nat} {kind : Call.Kind} (reads : kind ≠ .cancel)
    (step : play.Step move next) (reports : play.Reports index kind) :
    next.Reports index kind := by
  rcases reports with ⟨raised, call, found, prompt⟩
  cases step with
  | drift => exact ⟨raised, call, found, prompt⟩
  | call begun =>
      have inside := (List.getElem?_eq_some_iff.mp found).1
      exact ⟨raised, call, (List.getElem?_append_left inside).trans found, prompt⟩
  | @proceed other mover here running =>
      refine ⟨Call.flag_proceed.mpr (.inl raised), ?_⟩
      by_cases same : other = index
      · subst same
        rw [found] at here
        cases here
        rcases prompt with rfl | answered
        · exact ⟨_, List.getElem?_set_self (List.getElem?_eq_some_iff.mp found).1,
            .inr (Call.answer?_proceed_first reads raised)⟩
        · rw [Call.isOver_of_answer? answered] at running
          contradiction
      · exact ⟨call, (List.getElem?_set_ne same).trans found, prompt⟩

/-! ## Tokens that are not cancelled -/

theorem Step.calm {kind : Call.Kind} (other : move ≠ .call kind) (step : play.Step move next)
    (calm : ∀ call ∈ play.calls, call.kind ≠ kind) : ∀ call ∈ next.calls, call.kind ≠ kind := by
  cases step with
  | drift => exact calm
  | call begun =>
      have different : begun.first.kind ≠ kind := by
        rintro rfl
        cases begun <;> exact other rfl
      simpa [or_imp, forall_and, different] using calm
  | proceed found =>
      intro call listed
      rcases List.mem_or_eq_of_mem_set listed with before | rfl
      · exact calm call before
      · rw [Call.kind_proceed]
        exact calm _ (List.mem_of_getElem? found)

/-! ## Calls return -/

/-- How many steps the call at an index can take at most; a call that has not begun can take
as many as any. -/
def stepsLeft (play : Interplay) (index : Nat) : Nat :=
  (play.calls[index]?.map Call.stepsLeft).getD 4

theorem Step.stepsLeft_le (step : play.Step move next) (index : Nat) :
    (if move = .proceed index then 1 else 0) + next.stepsLeft index ≤ play.stepsLeft index := by
  cases step with
  | drift _ idle =>
      have other : move ≠ .proceed index := by
        rcases idle with rfl | rfl <;> exact nofun
      exact Nat.le_of_eq (by rw [if_neg other, Nat.zero_add]; rfl)
  | call kind =>
      rw [if_neg nofun, Nat.zero_add, stepsLeft, stepsLeft]
      rcases Nat.lt_trichotomy index play.calls.length with before | rfl | beyond
      · exact Nat.le_of_eq (by rw [List.getElem?_append_left before])
      · have first : kind.first.stepsLeft ≤ 4 := by cases kind <;> decide
        simpa using first
      · have outside : (play.calls ++ [kind.first]).length ≤ index := by
          rw [List.length_append]
          exact beyond
        have inside : play.calls.length ≤ index := Nat.le_of_lt beyond
        exact Nat.le_of_eq (by rw [List.getElem?_eq_none outside, List.getElem?_eq_none inside])
  | @proceed other call found running =>
      have fewer := Call.stepsLeft_proceed_lt running play.token
      rw [stepsLeft, stepsLeft]
      by_cases same : other = index
      · subst same
        rw [if_pos rfl, found, List.getElem?_set_self (List.getElem?_eq_some_iff.mp found).1,
          Nat.add_comm]
        exact fewer
      · have elsewhere : Move.proceed other ≠ .proceed index := fun equal =>
          same (Move.proceed.inj equal)
        exact Nat.le_of_eq (by rw [if_neg elsewhere, List.getElem?_set_ne same, Nat.zero_add])

theorem count_add_stepsLeft_le (ran : play.run moves = some final) (index : Nat) :
    moves.count (.proceed index) + final.stepsLeft index ≤ play.stepsLeft index := by
  induction moves generalizing play with
  | nil =>
      cases ran
      exact Nat.le_of_eq (Nat.zero_add _)
  | cons move rest ih =>
      rcases run_cons_eq_some_iff.mp ran with ⟨next, moved, later⟩
      have here := (step_of_step? moved).stepsLeft_le index
      have others := ih later
      rw [List.count_cons]
      simp only [beq_iff_eq]
      omega

theorem step?_proceed {index : Nat} {call : Call} (found : play.calls[index]? = some call)
    (running : call.isOver = false) :
    play.step? (.proceed index) =
      some ⟨(call.proceed play.token).2, play.calls.set index (call.proceed play.token).1⟩ := by
  rw [step?, found]
  simp [running]

/-- A call that is left alone from some moment on comes out as on a token that nobody else
uses. -/
theorem exists_run_alone {index : Nat} {call : Call} (found : play.calls[index]? = some call) :
    ∃ count ≤ call.stepsLeft, play.run (List.replicate count (.proceed index)) =
      some ⟨(call.alone play.token).2, play.calls.set index (call.alone play.token).1⟩ := by
  rcases play with ⟨token, calls⟩
  dsimp only at found ⊢
  fun_induction Call.alone call token generalizing calls with
  | case1 call token =>
      have unchanged : calls.set index call = calls := by
        rcases List.getElem?_eq_some_iff.mp found with ⟨inside, rfl⟩
        exact List.set_getElem_self inside
      exact ⟨0, Nat.zero_le _, by rw [unchanged]; rfl⟩
  | case2 call token running ih =>
      have running : call.isOver = false := Bool.eq_false_iff.mpr running
      have inside := (List.getElem?_eq_some_iff.mp found).1
      rcases ih (calls.set index (call.proceed token).1) (List.getElem?_set_self inside)
        with ⟨count, few, ran⟩
      refine ⟨count + 1, Nat.lt_of_le_of_lt few (Call.stepsLeft_proceed_lt running token), ?_⟩
      rw [List.set_set] at ran
      exact run_cons_eq_some_iff.mpr ⟨_, step?_proceed found running, ran⟩

/-- Whatever calls are made on a token and its cancellers, and in whatever order they go on:

* a wait or a look finds the token set only after some cancellation has raised the flag;
* every wait and look that begins after that finds it set with its first step, whatever
  happens before it;
* there is never more than one wake-up;
* if no cancellation begins, every wait and look that returns finds the token not set;
* a call does at most four steps, and a wait or look that has not returned can do its next one
  at any time. -/
theorem cancellation_is_sticky {token : CancelToken} {moves : List Move} {play : Interplay}
    (isNew : token = .connected ∨ token = .never)
    (ran : (start token).run moves = some play) :
    (∀ call ∈ play.calls, call.answer? = some true → play.IsRaised) ∧
    (play.IsRaised → ∀ (kind : Call.Kind) (later : List Move) (final : Interplay),
      kind ≠ .cancel → play.run (.call kind :: later) = some final →
      ∃ call, final.calls[play.calls.length]? = some call ∧
        (call = kind.first ∨ call.answer? = some true)) ∧
    play.token.wakeups ≤ 1 ∧
    (.call .cancel ∉ moves → ∀ call ∈ play.calls, ∀ answer, call.answer? = some answer →
      answer = false) ∧
    ∀ (index : Nat) (call : Call), play.calls[index]? = some call →
      moves.count (.proceed index) ≤ 4 ∧
      (call.kind ≠ .cancel → call.answer? = none →
        (play.step? (.proceed index)).isSome = true) := by
  have sound : play.Sound :=
    keeps_of_run (fun _ _ _ _ step => step.sound) ran (sound_start isNew)
  have raised_of_answer : ∀ call ∈ play.calls, call.answer? = some true → play.IsRaised :=
    fun call member answered => sound.flag_iff.mp (sound.flag_of_answer call member answered)
  refine ⟨raised_of_answer, ?_, sound.wakeups_le, ?_, ?_⟩
  · intro raised kind later final reads onward
    rcases run_cons_eq_some_iff.mp onward with ⟨next, began, ranLater⟩
    have reports : next.Reports play.calls.length kind := by
      cases step_of_step? began with
      | drift _ idle => rcases idle with idle | idle <;> contradiction
      | call =>
          exact ⟨sound.flag_iff.mpr raised, kind.first, List.getElem?_concat_length, .inl rfl⟩
    exact (keeps_of_run (fun _ _ _ _ step => step.reports reads) ranLater reports).prompt
  · intro uncalled call member answer answered
    have calm : ∀ call ∈ play.calls, call.kind ≠ .cancel :=
      keeps_of_run (motive := fun play => ∀ call ∈ play.calls, call.kind ≠ .cancel)
        (fun move listed _ _ step => step.calm fun same => uncalled (same ▸ listed)) ran nofun
    cases answer with
    | false => rfl
    | true =>
        rcases raised_of_answer call member answered with ⟨other, listed, raised⟩
        exact absurd (Call.kind_of_hasRaised raised) (calm other listed)
  · intro index call found
    have bounded := count_add_stepsLeft_le ran index
    have most : (start token).stepsLeft index = 4 := rfl
    refine ⟨by omega, fun reads unanswered => ?_⟩
    rw [step?_proceed found (Call.isOver_of_unanswered reads unanswered)]
    rfl

/-- A wait takes the only wake-up, and both cancellers go away.  Whoever waits or looks after
that still finds the token set. -/
theorem cancellation_is_sticky_without_cancellers :
    ∃ play, (start .connected).run
        [.call .wait, .proceed 0, .clone, .call .cancel, .drop, .proceed 1, .proceed 1,
          .proceed 0, .drop] = some play ∧
      play.token.wakeups = 0 ∧ play.token.cancellers = 0 ∧ play.IsRaised ∧
      ∀ (kind : Call.Kind) (later : List Move) (final : Interplay), kind ≠ .cancel →
        play.run (.call kind :: later) = some final →
        ∃ call, final.calls[2]? = some call ∧
          (call = kind.first ∨ call.answer? = some true) := by
  have ran : (start .connected).run
      [.call .wait, .proceed 0, .clone, .call .cancel, .drop, .proceed 1, .proceed 1,
        .proceed 0, .drop] =
      some ⟨⟨true, 0, 0, false⟩, [.wait (.returned true), .cancel .returned]⟩ := by
    decide
  have ⟨spurious, sticky, _⟩ := cancellation_is_sticky (.inl rfl) ran
  have raised := spurious (.wait (.returned true)) List.mem_cons_self rfl
  exact ⟨_, ran, rfl, rfl, raised, sticky raised⟩

end Interplay

end MidiScore.Playback
