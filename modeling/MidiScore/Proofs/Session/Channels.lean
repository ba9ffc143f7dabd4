import MidiScore.Proofs.KeyMap
import MidiScore.Proofs.Note.Resolution
import MidiScore.Proofs.Session.Failure

/-!
# Channels keep apart

A declaration looks up keys on the channel in force and on no other.  So a score that never
selects some channel cannot tell what is bound there: two runs of it whose key maps differ on
that channel alone accept and refuse the same declarations and put out the same bars, also
through bar bodies that select channels of their own, `Context.step_sameOff`.

Blocks that go to the other channel, bind notes there and come back may therefore stand between
the declarations of the score, `Session.key_blocks_are_silent`.
-/

namespace MidiScore

namespace Declaration

mutual

/-- The channels that a declaration selects, also in its body. -/
def selected : Declaration → List UInt8
  | .channel number => [number]
  | .defineBar _ body => selectedIn body
  | _ => []

/-- The channels that declarations select, also in their bodies. -/
def selectedIn : List Declaration → List UInt8
  | [] => []
  | first :: rest => selected first ++ selectedIn rest

end

theorem not_mem_selectedIn_cons {channel : UInt8} {first : Declaration}
    {rest : List Declaration} :
    channel ∉ selectedIn (first :: rest) ↔
      channel ∉ first.selected ∧ channel ∉ selectedIn rest := by
  rw [selectedIn, List.mem_append, not_or]

/-- The channel in force behind a declaration outside of bodies. -/
def channelAfter (current : UInt8) : Declaration → UInt8
  | .channel number => number
  | _ => current

theorem channelAfter_ne {other current : UInt8} {declaration : Declaration}
    (avoids : other ∉ declaration.selected) (away : current ≠ other) :
    declaration.channelAfter current ≠ other := by
  cases declaration with
  | channel number =>
      rintro rfl
      exact avoids (List.mem_singleton_self _)
  | _ => exact away

/-- Go to another channel, bind notes there and come back. -/
def keyBlock (other current : UInt8) (bindings : List (Char × UInt8)) : List Declaration :=
  .channel other :: bindings.map (fun binding => .assign binding.1 binding.2) ++
    [.channel current]

/-- Blocks of bindings on another channel stand between the declarations of a score.  The
channel in force in front of the score comes first, all bindings of the blocks come last. -/
inductive Inserted (other : UInt8) : UInt8 → List Declaration → List Declaration →
    List (Char × UInt8) → Prop where
  | nil (current : UInt8) : Inserted other current [] [] []
  | keep {current : UInt8} {score extended : List Declaration} {bindings : List (Char × UInt8)}
      (declaration : Declaration)
      (rest : Inserted other (declaration.channelAfter current) score extended bindings) :
      Inserted other current (declaration :: score) (declaration :: extended) bindings
  | block {current : UInt8} {score extended : List Declaration} {later : List (Char × UInt8)}
      (bindings : List (Char × UInt8))
      (rest : Inserted other current score extended later) :
      Inserted other current score (keyBlock other current bindings ++ extended)
        (bindings ++ later)

end Declaration

/-! ## What does not depend on the other channel -/

/-- The maps answer the same on all channels but one. -/
def KeyMap.AgreesOff (other : UInt8) (first second : KeyMap) : Prop :=
  ∀ channel note, channel ≠ other → second.get? channel note = first.get? channel note

section

variable {other : UInt8} {keys others : KeyMap}

theorem Note.resolve_agree (agree : keys.AgreesOff other others) {channel : UInt8}
    (away : channel ≠ other) (note : Note) (scale : Scale) :
    note.resolve others scale channel = note.resolve keys scale channel := by
  rw [resolve, resolve, agree channel note.name away]

theorem Note.sequenceEvents_agree (agree : keys.AgreesOff other others) {scope : Scope}
    (away : scope.channel ≠ other) (scale : Scale) (cursor : UInt32) (notes : List Note) :
    sequenceEvents others scale scope cursor notes =
      sequenceEvents keys scale scope cursor notes := by
  induction notes generalizing cursor with
  | nil => rfl
  | cons note rest ih =>
      have here : note.eventsAt others scale scope cursor =
          note.eventsAt keys scale scope cursor := by
        rw [eventsAt, eventsAt, note.resolve_agree agree away]
      simp only [sequenceEvents, here, ih]

namespace Draft

variable {draft next : Draft} {declaration : Declaration}

theorem step_agree (agree : keys.AgreesOff other others) (away : draft.scope.channel ≠ other)
    (declaration : Declaration) :
    draft.step others declaration = draft.step keys declaration := by
  cases declaration with
  | notes list =>
      rw [step, step, addNotes, addNotes, Note.sequenceEvents_agree agree away]
  | _ => rfl

theorem Step.channel_eq (step : Step keys draft declaration next) :
    next.scope.channel = declaration.channelAfter draft.scope.channel := by
  cases step <;> rfl

theorem Step.channel_le (step : Step keys draft declaration next)
    (legal : draft.scope.channel.toNat ≤ 15) : next.scope.channel.toNat ≤ 15 := by
  cases step with
  | channel number admitted => exact (Quantity.admits_natCast_iff rfl rfl).mp admitted
  | _ => exact legal

/-- A body that never selects the other channel does the same whatever is bound there. -/
theorem steps_agree (agree : keys.AgreesOff other others) (away : draft.scope.channel ≠ other)
    {body : List Declaration} (avoids : other ∉ Declaration.selectedIn body) :
    draft.steps others body = draft.steps keys body := by
  induction body generalizing draft with
  | nil => rfl
  | cons declaration rest ih =>
      rcases Declaration.not_mem_selectedIn_cons.mp avoids with ⟨here, later⟩
      rw [steps, steps, step_agree agree away]
      cases outcome : draft.step keys declaration with
      | error error => rfl
      | ok next =>
          have stillAway : next.scope.channel ≠ other := by
            rw [(step_eq_ok_iff.mp outcome).channel_eq]
            exact Declaration.channelAfter_ne here away
          exact ih stillAway later

end Draft

end

namespace Context

variable {other : UInt8} {first second context next : Context} {declaration : Declaration}

/-- The contexts differ at most in what is bound on one channel. -/
structure AgreesOff (other : UInt8) (first second : Context) : Prop where
  scope : second.scope = first.scope
  keys : first.keys.AgreesOff other second.keys
  bars : second.bars = first.bars
  signatures : second.signatures = first.signatures

/-- The same error, or the same bar and contexts that differ at most on one channel. -/
inductive SameOff (other : UInt8) :
    Except Error (Context × Option Bar) → Except Error (Context × Option Bar) → Prop where
  | refused (error : Error) : SameOff other (.error error) (.error error)
  | accepted {first second : Context} (put : Option Bar) (agree : first.AgreesOff other second) :
      SameOff other (.ok (first, put)) (.ok (second, put))

section

variable {others : KeyMap}

theorem assign_sameOff (agree : first.keys.AgreesOff other others)
    (away : first.scope.channel ≠ other) (note : Char) (key : UInt8) :
    SameOff other (first.step (.assign note key))
      (step { first with keys := others } (.assign note key)) := by
  have same := agree first.scope.channel note away
  simp only [step, assign]
  cases Quantity.key.check key.toNat with
  | error error => exact .refused error
  | ok _ =>
      simp only [bind, Except.bind]
      cases known : first.keys.get? first.scope.channel note with
      | some existing =>
          simp only [same, known]
          exact .refused _
      | none =>
          simp only [same, known]
          refine .accepted none ⟨rfl, fun channel name elsewhere => ?_, rfl, rfl⟩
          rw [KeyMap.get?_getD_bind? known, KeyMap.get?_getD_bind? (same.trans known),
            agree channel name elsewhere]

/-- What is bound on the other channel is not heard in a bar body either, which may go to any
channel but that one. -/
theorem defineBar_sameOff (agree : first.keys.AgreesOff other others)
    (away : first.scope.channel ≠ other) (name : String) {body : List Declaration}
    (avoids : other ∉ Declaration.selectedIn body) :
    SameOff other (first.step (.defineBar name body))
      (step { first with keys := others } (.defineBar name body)) := by
  have bar?_eq : bar? { first with keys := others } name = first.bar? name := rfl
  simp only [step]
  cases known : first.bar? name with
  | some bar =>
      rw [defineBar_of_used body known, defineBar_of_used body (bar?_eq.trans known)]
      exact .refused _
  | none =>
      rw [defineBar_of_fresh body known, defineBar_of_fresh body (bar?_eq.trans known),
        Draft.steps_agree agree away avoids]
      cases (Draft.start first.scope first.signatures).steps first.keys body with
      | error error => exact .refused error
      | ok draft =>
          cases finished : draft.finish with
          | none => simpa [finished] using .refused (.emptyBar name)
          | some bar =>
              simp only [finished]
              exact .accepted none ⟨rfl, agree, rfl, rfl⟩

end

/-- A declaration that does not select the other channel does the same whatever is bound
there. -/
theorem step_sameOff (agree : first.AgreesOff other second)
    (away : first.scope.channel ≠ other) (avoids : other ∉ declaration.selected) :
    SameOff other (first.step declaration) (second.step declaration) := by
  rcases second with ⟨scope, others, bars, signatures⟩
  rcases agree with ⟨rfl, agree, rfl, rfl⟩
  cases declaration with
  | assign note key => exact assign_sameOff agree away note key
  | defineBar name body => exact defineBar_sameOff agree away name avoids
  | play name =>
      have bar?_eq : bar? { first with keys := others } name = first.bar? name := rfl
      simp only [step, bar?_eq]
      cases first.bar? name with
      | none => exact .refused _
      | some bar => exact .accepted (some bar) ⟨rfl, agree, rfl, rfl⟩
  | _ =>
      rw [step_of_isLocal rfl, step_of_isLocal rfl, Draft.step_agree agree away]
      cases (Draft.start first.scope first.signatures).step first.keys _ with
      | error error => exact .refused error
      | ok draft => exact .accepted draft.finish ⟨rfl, agree, rfl, rfl⟩

/-- The channel in force behind a declaration is the one that it selects, or else the one
before.  Channels in force are legal. -/
theorem Step.channel_eq {put : Option Bar} (step : Step context declaration next put) :
    next.scope.channel = declaration.channelAfter context.scope.channel := by
  cases step with
  | own _ draft _ run _ =>
      rw [Draft.steps_singleton, Draft.step_eq_ok_iff] at run
      exact run.channel_eq
  | _ => rfl

theorem Step.channel_le {put : Option Bar} (step : Step context declaration next put)
    (legal : context.scope.channel.toNat ≤ 15) : next.scope.channel.toNat ≤ 15 := by
  cases step with
  | own _ draft _ run _ =>
      rw [Draft.steps_singleton, Draft.step_eq_ok_iff] at run
      exact run.channel_le legal
  | _ => exact legal

/-- A declaration binds notes on the channel in force only. -/
theorem Step.get?_eq {put : Option Bar} (step : Step context declaration next put)
    (away : context.scope.channel ≠ other) (note : Char) :
    next.keys.get? other note = context.keys.get? other note := by
  cases step with
  | assign name key _ free =>
      rw [KeyMap.get?_getD_bind? free, if_neg (fun here => away here.1.symm)]
  | _ => rfl

/-! ## Blocks of bindings -/

theorem step_channel {number : UInt8} (legal : number.toNat ≤ 15) :
    context.step (.channel number) = .ok ({ context with scope.channel := number }, none) := by
  have admitted : Quantity.channel.admits number.toNat = true :=
    (Quantity.admits_natCast_iff rfl rfl).mpr legal
  rw [step_of_isLocal rfl, Draft.step, Quantity.check, if_pos admitted]
  rfl

theorem step_assign {note : Char} {key : UInt8} (legal : key.toNat ≤ 127)
    (free : context.keys.get? context.scope.channel note = none) :
    ∃ keys, context.step (.assign note key) = .ok ({ context with keys }, none) ∧
      ∀ channel name, keys.get? channel name =
        if channel = context.scope.channel ∧ name = note then some key
        else context.keys.get? channel name := by
  have admitted : Quantity.key.admits key.toNat = true :=
    (Quantity.admits_natCast_iff rfl rfl).mpr legal
  exact ⟨_, step_eq_ok_iff.mpr (.assign note key admitted free),
    KeyMap.get?_getD_bind? free key⟩

/-- Different names that are free on the channel in force can be bound in a row.  Nothing else
changes. -/
theorem run_assigns (context : Context) {bindings : List (Char × UInt8)}
    (legal : ∀ binding ∈ bindings, binding.2.toNat ≤ 127)
    (distinct : (bindings.map Prod.fst).Nodup)
    (free : ∀ binding ∈ bindings, context.keys.get? context.scope.channel binding.1 = none) :
    ∃ keys, context.run (bindings.map fun binding => .assign binding.1 binding.2) =
        ({ context with keys }, .ok []) ∧
      ∀ channel note, channel ≠ context.scope.channel ∨ note ∉ bindings.map Prod.fst →
        keys.get? channel note = context.keys.get? channel note := by
  induction bindings generalizing context with
  | nil => exact ⟨context.keys, rfl, fun _ _ _ => rfl⟩
  | cons binding rest ih =>
      rcases binding with ⟨name, key⟩
      rcases List.forall_mem_cons.mp legal with ⟨legalHere, legalLater⟩
      rcases List.forall_mem_cons.mp free with ⟨freeHere, freeLater⟩
      rcases List.nodup_cons.mp distinct with ⟨fresh, distinctLater⟩
      rcases step_assign legalHere freeHere with ⟨withName, bound, answers⟩
      have stillFree : ∀ binding ∈ rest,
          withName.get? context.scope.channel binding.1 = none := by
        intro binding member
        have different : ¬ (context.scope.channel = context.scope.channel ∧
            binding.1 = name) := by
          rintro ⟨_, same⟩
          exact fresh (List.mem_map.mpr ⟨binding, member, same⟩)
        rw [answers, if_neg different, freeLater binding member]
      rcases ih { context with keys := withName } legalLater distinctLater stillFree with
        ⟨keys, ran, same⟩
      refine ⟨keys, run_cons_eq_ok_iff.mpr ⟨_, none, [], bound, ran, rfl⟩, ?_⟩
      intro channel note untouched
      have different : ¬ (channel = context.scope.channel ∧ note = name) := by
        rintro ⟨rfl, rfl⟩
        simp at untouched
      have untouchedLater : channel ≠ context.scope.channel ∨ note ∉ rest.map Prod.fst :=
        untouched.imp_right fun absent member => absent (List.mem_cons_of_mem _ member)
      rw [same channel note untouchedLater, answers, if_neg different]

/-- A block leaves everything as it was but for what it binds on the other channel. -/
theorem run_keyBlock (context : Context) (legalOther : other.toNat ≤ 15)
    (legalCurrent : context.scope.channel.toNat ≤ 15) {bindings : List (Char × UInt8)}
    (legal : ∀ binding ∈ bindings, binding.2.toNat ≤ 127)
    (distinct : (bindings.map Prod.fst).Nodup)
    (free : ∀ binding ∈ bindings, context.keys.get? other binding.1 = none) :
    ∃ keys, context.run (Declaration.keyBlock other context.scope.channel bindings) =
        ({ context with keys }, .ok []) ∧
      ∀ channel note, channel ≠ other ∨ note ∉ bindings.map Prod.fst →
        keys.get? channel note = context.keys.get? channel note := by
  rcases run_assigns { context with scope.channel := other } legal distinct free with
    ⟨keys, ran, same⟩
  have back : run { context with scope.channel := other, keys } [.channel context.scope.channel] =
      ({ context with keys }, .ok []) :=
    run_cons_eq_ok_iff.mpr ⟨_, none, [], step_channel legalCurrent, rfl, rfl⟩
  refine ⟨keys, ?_, same⟩
  have behind := run_append_of_ok ran [.channel context.scope.channel]
  rw [back] at behind
  exact run_cons_eq_ok_iff.mpr ⟨_, none, [], step_channel legalOther, behind, rfl⟩

/-! ## Runs side by side -/

/-- A run, and another one beside it that has bindings on one more channel and has yet to make
some there. -/
structure Parallel (other current : UInt8) (bindings : List (Char × UInt8))
    (first second : Context) : Prop where
  agree : first.AgreesOff other second
  inForce : first.scope.channel = current
  legalChannel : current.toNat ≤ 15
  away : current ≠ other
  free : ∀ binding ∈ bindings, second.keys.get? other binding.1 = none
  legalKeys : ∀ binding ∈ bindings, binding.2.toNat ≤ 127
  distinct : (bindings.map Prod.fst).Nodup

namespace Parallel

variable {current : UInt8} {bindings later : List (Char × UInt8)}

/-- The runs stay side by side through a declaration of both, or end with the same error. -/
theorem keep (parallel : Parallel other current bindings first second)
    (avoids : other ∉ declaration.selected) :
    (∃ error, first.step declaration = .error error ∧
      second.step declaration = .error error) ∨
    ∃ next reached put, first.step declaration = .ok (next, put) ∧
      second.step declaration = .ok (reached, put) ∧
      Parallel other (declaration.channelAfter current) bindings next reached := by
  have away : first.scope.channel ≠ other := by
    rw [parallel.inForce]
    exact parallel.away
  have same := step_sameOff parallel.agree away avoids
  generalize outcome : first.step declaration = mine at same
  generalize outcomeBeside : second.step declaration = beside at same
  cases same with
  | refused error => exact .inl ⟨error, rfl, rfl⟩
  | @accepted next reached put agree =>
      have step := step_eq_ok_iff.mp outcome
      have stepBeside := step_eq_ok_iff.mp outcomeBeside
      have inForce : next.scope.channel = declaration.channelAfter current := by
        rw [step.channel_eq, parallel.inForce]
      have legal : next.scope.channel.toNat ≤ 15 := by
        refine step.channel_le ?_
        rw [parallel.inForce]
        exact parallel.legalChannel
      have awayBeside : second.scope.channel ≠ other := by
        rw [parallel.agree.scope]
        exact away
      refine .inr ⟨next, reached, put, rfl, rfl, agree, inForce, inForce ▸ legal,
        Declaration.channelAfter_ne avoids parallel.away, ?_, parallel.legalKeys,
        parallel.distinct⟩
      -- Names that blocks have yet to bind stay free: the declaration binds on its own channel.
      intro binding member
      rw [stepBeside.get?_eq awayBeside, parallel.free binding member]

/-- The runs stay side by side when the second one goes through a block on its own. -/
theorem block (parallel : Parallel other current (bindings ++ later) first second)
    (legalOther : other.toNat ≤ 15) :
    ∃ reached, second.run (Declaration.keyBlock other current bindings) = (reached, .ok []) ∧
      Parallel other current later first reached := by
  rcases List.forall_mem_append.mp parallel.legalKeys with ⟨legalHere, legalLater⟩
  rcases List.forall_mem_append.mp parallel.free with ⟨freeHere, freeLater⟩
  have distinct := parallel.distinct
  rw [List.map_append, List.nodup_append] at distinct
  rcases distinct with ⟨distinctHere, distinctLater, disjoint⟩
  have inForce : second.scope.channel = current := by
    rw [parallel.agree.scope, parallel.inForce]
  rcases run_keyBlock second legalOther (inForce ▸ parallel.legalChannel) legalHere
    distinctHere freeHere with ⟨keys, ran, same⟩
  rw [inForce] at ran
  refine ⟨_, ran, ⟨parallel.agree.scope, ?_, parallel.agree.bars, parallel.agree.signatures⟩,
    parallel.inForce, parallel.legalChannel, parallel.away, ?_, legalLater, distinctLater⟩
  · intro channel note elsewhere
    rw [same channel note (.inl elsewhere), parallel.agree.keys channel note elsewhere]
  · intro binding member
    have absent : binding.1 ∉ bindings.map Prod.fst :=
      fun here => disjoint _ here _ (List.mem_map_of_mem member) rfl
    rw [same other binding.1 (.inr absent), freeLater binding member]

/-- Blocks between the declarations of a score change neither its outcome nor its bars. -/
theorem run {score extended : List Declaration}
    (inserted : Declaration.Inserted other current score extended bindings)
    (parallel : Parallel other current bindings first second) (legalOther : other.toNat ≤ 15)
    (avoids : other ∉ Declaration.selectedIn score) :
    (second.run extended).2 = (first.run score).2 := by
  -- The induction follows the places of the blocks; `Parallel` is what both steps keep.
  induction inserted generalizing first second with
  | nil current => rfl
  | keep declaration rest ih =>
      rcases Declaration.not_mem_selectedIn_cons.mp avoids with ⟨here, later⟩
      rcases parallel.keep here with ⟨error, mine, beside⟩ | ⟨next, reached, put, mine, beside, on⟩
      · simp only [Context.run, mine, beside]
      · simp only [Context.run, mine, beside, ih on later]
  | block bindings rest ih =>
      rcases parallel.block legalOther with ⟨reached, ran, on⟩
      rw [run_append_of_ok ran, ← ih on avoids]
      cases (reached.run _).2 <;> rfl

end Parallel

end Context

namespace Session

/-- Blocks that go to another channel, bind notes there and come back to the channel in force may
stand anywhere between the declarations of a score that never selects that channel: in a session
of its own the score is accepted, or refused with the same error, as it is without them, and its
bars are the same. -/
theorem key_blocks_are_silent (config : Config) {other : UInt8}
    {score extended : List Declaration} {bindings : List (Char × UInt8)}
    (notFirst : other ≠ 0) (legal : other.toNat ≤ 15)
    (avoids : other ∉ Declaration.selectedIn score)
    (inserted : Declaration.Inserted other 0 score extended bindings)
    (legalKeys : ∀ binding ∈ bindings, binding.2.toNat ≤ 127)
    (distinct : (bindings.map Prod.fst).Nodup) :
    ((ofConfig config).evaluate extended).2 = ((ofConfig config).evaluate score).2 ∧
      ((ofConfig config).evaluate extended).1.flush.1 =
        ((ofConfig config).evaluate score).1.flush.1 := by
  let start := (ofConfig config).context
  have parallel : Context.Parallel other 0 bindings start start := {
    agree := ⟨rfl, fun _ _ _ => rfl, rfl, rfl⟩
    inForce := rfl
    legalChannel := Nat.zero_le _
    away := notFirst.symm
    free := fun _ _ => KeyMap.get?_empty _ _
    legalKeys := legalKeys
    distinct := distinct }
  have same : (start.run extended).2 = (start.run score).2 :=
    parallel.run inserted legal avoids
  rw [evaluate, evaluate]
  rcases ran : start.run score with ⟨final, error | bars⟩ <;>
    rcases ranBeside : start.run extended with ⟨finalBeside, errorBeside | barsBeside⟩ <;>
    rw [ran, ranBeside] at same <;> cases same <;> exact ⟨rfl, rfl⟩

/-- A bar body goes from channel to channel; what blocks bind on channel 5 in front of it and
behind it, under the name of its note too, is not heard. -/
theorem key_blocks_are_silent_around_body :
    let body : List Declaration :=
      [.notes [.plain 'c'], .channel 0, .key "Eb", .notes [.plain 'c'], .channel 9]
    let score : List Declaration :=
      [.assign 'c' 60, .channel 3, .assign 'c' 62, .defineBar "b" body, .notes [.plain 'c'],
        .play "b"]
    let extended : List Declaration :=
      Declaration.keyBlock 5 0 [('c', 70), ('d', 71)] ++ .assign 'c' 60 :: .channel 3 ::
        (Declaration.keyBlock 5 3 [('e', 127)] ++ .assign 'c' 62 :: .defineBar "b" body ::
          .notes [.plain 'c'] :: (Declaration.keyBlock 5 3 [] ++ [.play "b"]))
    ((ofConfig .standard).evaluate score).2 = none ∧
      ((ofConfig .standard).evaluate score).1.buffer.map (·.events.length) = [2, 5] ∧
      ((ofConfig .standard).evaluate extended).2 = none ∧
      ((ofConfig .standard).evaluate extended).1.flush.1 =
        ((ofConfig .standard).evaluate score).1.flush.1 := by
  intro body score extended
  have inserted : Declaration.Inserted 5 0 score extended [('c', 70), ('d', 71), ('e', 127)] :=
    .block [('c', 70), ('d', 71)] (.keep _ (.keep _ (.block [('e', 127)] (.keep _ (.keep _
      (.keep _ (.block [] (.keep _ (.nil _)))))))))
  have accepted : ((ofConfig .standard).evaluate score).2 = none := by decide +kernel
  rcases key_blocks_are_silent .standard (by decide) (by decide) (by decide) inserted
    (by decide) (by decide) with ⟨same, bars⟩
  exact ⟨accepted, by decide +kernel, same.trans accepted, bars⟩

/-- There is no channel 16: a block that goes there is refused, and with it the score. -/
theorem key_block_refused_beyond_channels :
    ¬ ∀ (config : Config) (other : UInt8) (score extended : List Declaration)
      (bindings : List (Char × UInt8)), other ≠ 0 → other ∉ Declaration.selectedIn score →
      Declaration.Inserted other 0 score extended bindings →
      (∀ binding ∈ bindings, binding.2.toNat ≤ 127) → (bindings.map Prod.fst).Nodup →
      ((ofConfig config).evaluate extended).2 = ((ofConfig config).evaluate score).2 ∧
        ((ofConfig config).evaluate extended).1.flush.1 =
          ((ofConfig config).evaluate score).1.flush.1 := by
  intro silent
  have inserted : Declaration.Inserted 16 0 [.tempo 60]
      (Declaration.keyBlock 16 0 [('c', 60)] ++ [.tempo 60]) [('c', 60)] :=
    .block [('c', 60)] (.keep _ (.nil _))
  have same := (silent .standard 16 _ _ _ (by decide) (by decide) inserted (by decide)
    (by decide)).1
  have accepted : ((ofConfig .standard).evaluate [.tempo 60]).2 = none := by decide +kernel
  have refused : ((ofConfig .standard).evaluate
      (Declaration.keyBlock 16 0 [('c', 60)] ++ [.tempo 60])).2 =
        some (.outOfRange .channel 16) := by decide +kernel
  rw [accepted, refused] at same
  contradiction

end Session

end MidiScore
