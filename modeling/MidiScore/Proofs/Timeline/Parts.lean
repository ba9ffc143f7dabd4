import MidiScore.Proofs.Flush.Parts
import MidiScore.Proofs.MidiFile.Conductor
import MidiScore.Proofs.Timeline.Sounding

/-!
# Timelines that are fed call by call

A session may be flushed into a timeline after each call or once after all of them.  A
timeline goes on by the capacity of every bar that it is given, also of one that takes up no
time.  So if the last bar of a call takes up no time, and comes out on its own only because
the session was flushed there, all events of later calls come later by the capacity of that
bar.  This is the only difference: the two ways give the same events exactly if no call with
such a last bar is followed by one that puts out an event.
-/

namespace MidiScore

namespace Passage

/-- Passages one after another, each with the ticks that all behind it have to wait. -/
def stagger : List (Passage × Nat) → Passage
  | [] => []
  | (passage, wait) :: rest => passage ++ (stagger rest).delay wait

/-- The ticks that entries come later by their waits, taken over all of them. -/
def lateness : List (Passage × Nat) → Nat
  | [] => 0
  | (_, wait) :: rest => wait * (rest.flatMap (·.1)).length + lateness rest

theorem delay_append (wait : Nat) (first second : Passage) :
    delay wait (first ++ second) = delay wait first ++ delay wait second :=
  List.map_append

theorem delay_delay (first second : Nat) (passage : Passage) :
    (passage.delay first).delay second = passage.delay (first + second) := by
  rw [delay, delay, delay, List.map_map]
  refine List.map_congr_left fun entry _ => ?_
  rw [Function.comp_apply, ← Nat.add_assoc, Nat.add_comm second]

theorem sum_tick_delay (wait : Nat) (passage : Passage) :
    ((passage.delay wait).map (·.1)).sum = (passage.map (·.1)).sum + wait * passage.length := by
  induction passage with
  | nil => rfl
  | cons entry rest ih =>
      rw [delay] at ih ⊢
      rw [List.map_cons, List.map_cons, List.sum_cons, ih, List.map_cons, List.sum_cons,
        List.length_cons, Nat.mul_succ]
      omega

theorem length_stagger (pieces : List (Passage × Nat)) :
    (stagger pieces).length = (pieces.flatMap (·.1)).length := by
  induction pieces with
  | nil => rfl
  | cons piece rest ih =>
      rw [stagger, List.length_append, delay, List.length_map, ih, List.flatMap_cons,
        List.length_append]

theorem sum_tick_stagger (pieces : List (Passage × Nat)) :
    ((stagger pieces).map (·.1)).sum =
      ((pieces.flatMap (·.1)).map (·.1)).sum + lateness pieces := by
  induction pieces with
  | nil => rfl
  | cons piece rest ih =>
      rw [stagger, List.map_append, List.sum_append, sum_tick_delay, ih, length_stagger,
        List.flatMap_cons, List.map_append, List.sum_append, lateness]
      omega

/-- Nothing comes earlier where it has to wait. -/
theorem forall_tick_of_stagger {pieces : List (Passage × Nat)} {bound : Nat}
    (early : ∀ entry ∈ stagger pieces, entry.1 < bound) :
    ∀ entry ∈ pieces.flatMap (·.1), entry.1 < bound := by
  induction pieces with
  | nil => simp
  | cons piece rest ih =>
      rcases List.forall_mem_append.mp early with ⟨here, later⟩
      rw [delay, List.forall_mem_map] at later
      refine List.forall_mem_append.mpr ⟨here, ih fun entry member => ?_⟩
      exact Nat.lt_of_le_of_lt (Nat.le_add_left _ _) (later entry member)

end Passage

namespace Bar

/-! ## Where the events of a part go -/

theorem passageFrom_append (tick : Nat) (first second : List Bar) :
    passageFrom tick (first ++ second) =
      passageFrom tick first ++ passageFrom (tick + (first.map (·.capacity)).sum) second := by
  induction first generalizing tick with
  | nil => rfl
  | cons bar rest ih =>
      rw [List.cons_append, passageFrom, ih, passageFrom, List.map_cons, List.sum_cons,
        List.append_assoc, Nat.add_assoc]

/-- Bars that start later have all their entries later. -/
theorem passageFrom_add (tick wait : Nat) (bars : List Bar) :
    passageFrom (tick + wait) bars = (passageFrom tick bars).delay wait := by
  induction bars generalizing tick with
  | nil => rfl
  | cons bar rest ih =>
      rw [passageFrom, passageFrom, Passage.delay_append, Passage.delay_delay,
        Nat.add_right_comm, ih]

theorem map_message_passageFrom (tick : Nat) (bars : List Bar) :
    (passageFrom tick bars).map (·.2) = (bars.flatMap (·.events)).map (·.message) := by
  induction bars generalizing tick with
  | nil => rfl
  | cons bar rest ih =>
      rw [passageFrom, List.map_append, ih, List.flatMap_cons, List.map_append, Passage.delay,
        passage, List.map_map, List.map_map]
      rfl

/-- Events that wait happen at the start of the first bar that comes out. -/
theorem perm_passageFrom_settle {waiting : List Event} {bars : List Bar} (tick : Nat)
    (nonempty : bars ≠ []) :
    (passageFrom tick (settle waiting bars)).Perm
      (Passage.delay tick (waiting.map Event.entry) ++ passageFrom tick (settle [] bars)) := by
  induction bars generalizing waiting with
  | nil => contradiction
  | cons bar rest ih =>
      have sorted (events : List Event) : ((ofEvents bar.meter events).passage.delay tick).Perm
          (Passage.delay tick (events.map Event.entry)) :=
        (perm_passage_ofEvents bar.meter events).map _
      have split (front : List Event) : Passage.delay tick ((front ++ bar.events).map Event.entry) =
          Passage.delay tick (front.map Event.entry) ++ bar.passage.delay tick := by
        rw [List.map_append, Passage.delay_append]
        rfl
      have here : ((ofEvents bar.meter (waiting ++ bar.events)).passage.delay tick).Perm
          (Passage.delay tick (waiting.map Event.entry) ++
            (ofEvents bar.meter bar.events).passage.delay tick) := by
        refine (sorted _).trans ?_
        rw [split]
        exact (sorted bar.events).symm.append_left _
      cases zero : bar.isZeroDuration with
      | false =>
          rw [settle_cons_of_lasting zero, settle_cons_of_lasting zero, List.nil_append,
            passageFrom, passageFrom, ← List.append_assoc]
          exact here.append_right _
      | true =>
          cases rest with
          | nil =>
              rw [settle_singleton_of_zero zero, settle_singleton_of_zero zero, List.nil_append]
              simpa only [passageFrom, List.append_nil] using here
          | cons next others =>
              have later (front : List Event) := @ih front (List.cons_ne_nil next others)
              rw [settle_cons_cons_of_zero zero, settle_cons_cons_of_zero zero, List.nil_append]
              refine (later _).trans ?_
              rw [split, List.append_assoc]
              exact (later _).symm.append_left _

/-- The bar that is left over has the events that would wait. -/
theorem perm_passageFrom_leftover? (tick : Nat) (part : List Bar) :
    (passageFrom tick (leftover? part).toList).Perm (Passage.delay tick
      (((part.rtakeWhile (·.isZeroDuration)).flatMap (·.events)).map Event.entry)) := by
  rcases List.eq_nil_or_concat' part with rfl | ⟨front, last, rfl⟩
  · exact .nil
  · cases zero : last.isZeroDuration with
    | true =>
        rw [leftover?_concat_of_zero zero]
        simp only [Option.toList, passageFrom, List.append_nil]
        exact (perm_passage_ofEvents _ _).map _
    | false =>
        rw [leftover?_concat_of_lasting zero,
          List.rtakeWhile_concat_neg _ _ _ (by simp [zero])]
        exact .nil

/-- Behind a part come the events of the next bars, and these start where the last bar of the
part that takes up time ends. -/
theorem perm_passageFrom_settle_append (tick : Nat) (part rest : List Bar) :
    (passageFrom tick (settle [] (part ++ rest))).Perm (passageFrom tick (settle [] part) ++
      passageFrom (tick +
        ((settle [] (part.rdropWhile (·.isZeroDuration))).map (·.capacity)).sum)
          (settle [] rest)) := by
  cases rest with
  | nil => simp [settle, passageFrom]
  | cons next others =>
      rw [settle_append (List.cons_ne_nil next others), settle_eq_append_leftover? part,
        passageFrom_append, passageFrom_append, List.append_assoc]
      apply List.Perm.append_left
      apply (perm_passageFrom_settle _ (List.cons_ne_nil next others)).trans
      exact (perm_passageFrom_leftover? _ part).symm.append_right _

/-! ## Parts in a row -/

/-- The passages of parts of a buffer that is flushed once, the first part starting at a
tick, each with the ticks that the part leaves over if it is flushed alone. -/
def pieces (tick : Nat) : List (List Bar) → List (Passage × Nat)
  | [] => []
  | part :: rest =>
      (passageFrom tick (settle [] part), lag part) ::
        pieces (tick + ((settle [] (part.rdropWhile (·.isZeroDuration))).map (·.capacity)).sum)
          rest

theorem forall₂_pieces (tick : Nat) (parts : List (List Bar)) :
    List.Forall₂ (fun part piece => piece.2 = lag part ∧
      (piece.1.map (·.2)).Perm ((part.flatMap (·.events)).map (·.message)))
      parts (pieces tick parts) := by
  induction parts generalizing tick with
  | nil => exact .nil
  | cons part rest ih =>
      refine .cons ⟨rfl, ?_⟩ (ih _)
      rw [map_message_passageFrom]
      exact (perm_flatMap_events_settle fun _ => rfl).map _

/-- Parts that are flushed at once follow one another without a gap. -/
theorem perm_passageFrom_settle_flatten (tick : Nat) (parts : List (List Bar)) :
    (passageFrom tick (settle [] parts.flatten)).Perm ((pieces tick parts).flatMap (·.1)) := by
  induction parts generalizing tick with
  | nil => exact .nil
  | cons part rest ih =>
      rw [List.flatten_cons, pieces, List.flatMap_cons]
      exact (perm_passageFrom_settle_append tick part rest.flatten).trans ((ih _).append_left _)

/-- Parts that are flushed one by one wait for the bars that are left over in front of them. -/
theorem passageFrom_flatMap_settle (tick : Nat) (parts : List (List Bar)) :
    passageFrom tick (parts.flatMap (settle [])) = Passage.stagger (pieces tick parts) := by
  induction parts generalizing tick with
  | nil => rfl
  | cons part rest ih =>
      rw [List.flatMap_cons, passageFrom_append, sum_capacity_settle, ← Nat.add_assoc,
        passageFrom_add, ih, pieces, Passage.stagger]

/-- Parts that are flushed at once do not take more time. -/
theorem sum_capacity_settle_flatten_le (parts : List (List Bar)) :
    ((settle [] parts.flatten).map (·.capacity)).sum ≤
      ((parts.flatMap (settle [])).map (·.capacity)).sum := by
  induction parts with
  | nil => exact Nat.le_refl 0
  | cons part rest ih =>
      rw [List.flatten_cons, List.flatMap_cons, List.map_append, List.sum_append,
        sum_capacity_settle part]
      cases later : rest.flatten with
      | nil =>
          rw [List.append_nil, sum_capacity_settle part]
          exact Nat.le_add_right _ _
      | cons next others =>
          have meters (waiting : List Event) : (settle waiting (next :: others)).map (·.capacity) =
              (settle [] (next :: others)).map (·.capacity) := by
            have same := congrArg (List.map Meter.capacity) ((map_meter_settle waiting
              (next :: others)).trans (map_meter_settle [] (next :: others)).symm)
            rwa [List.map_map, List.map_map] at same
          rw [settle_append (List.cons_ne_nil next others), List.map_append, List.sum_append,
            meters]
          rw [later] at ih
          omega

theorem ticksFit_iff_passageFrom {bars : List Bar} :
    TicksFit bars ↔ (bars.map (·.capacity)).sum < 4294967296 ∧
      ∀ entry ∈ passageFrom 0 bars, entry.1 < 4294967296 := by
  have placed := (Clock.start 0).map_entry_placeBars bars
  have start : (Clock.start 0).tick = 0 := rfl
  have ticks := @Clock.forall_tick_placeBars_iff (.start 0) bars (· < 4294967296)
  simp only [start, Nat.zero_add] at placed ticks
  rw [← placed, List.forall_mem_map]
  exact ⟨fun fits => ⟨fits.final, ticks.mpr fits.events⟩,
    fun ⟨final, events⟩ => ⟨final, ticks.mp events⟩⟩

/-- Where words hold the ticks of parts one by one, they hold those of all at once. -/
theorem TicksFit.settle_flatten {parts : List (List Bar)}
    (fits : TicksFit (parts.flatMap (settle []))) : TicksFit (settle [] parts.flatten) := by
  rw [ticksFit_iff_passageFrom] at fits ⊢
  refine ⟨Nat.lt_of_le_of_lt (sum_capacity_settle_flatten_le parts) fits.1, ?_⟩
  have staggered := fits.2
  rw [passageFrom_flatMap_settle] at staggered
  intro entry member
  have inPieces := (perm_passageFrom_settle_flatten 0 parts).mem_iff.mp member
  exact Passage.forall_tick_of_stagger staggered entry inPieces

theorem length_flatMap_pieces (tick : Nat) (parts : List (List Bar)) :
    ((pieces tick parts).flatMap (·.1)).length = (parts.flatten.flatMap (·.events)).length := by
  have messages := map_message_passageFrom tick (settle [] parts.flatten)
  have lengths := congrArg List.length messages
  rw [List.length_map, List.length_map] at lengths
  rw [← (perm_passageFrom_settle_flatten tick parts).length_eq, lengths,
    (perm_flatMap_events_settle fun _ => rfl).length_eq, List.nil_append]

/-- Nothing comes later exactly if each part lets all behind it pass. -/
theorem lateness_pieces_eq_zero_iff (tick : Nat) {parts : List (List Bar)}
    (positive : ∀ bar ∈ parts.flatten, 0 < bar.capacity) :
    Passage.lateness (pieces tick parts) = 0 ↔ parts.Pairwise LetsPass := by
  induction parts generalizing tick with
  | nil => exact iff_of_true rfl .nil
  | cons part rest ih =>
      rw [List.flatten_cons] at positive
      rcases List.forall_mem_append.mp positive with ⟨positiveHere, positiveLater⟩
      have silent : (rest.flatten.flatMap (·.events)).length = 0 ↔
          ∀ later ∈ rest, ∀ bar ∈ later, bar.events = [] := by
        rw [List.length_eq_zero_iff, List.flatMap_eq_nil_iff, List.forall_mem_flatten]
      have here : lag part * (rest.flatten.flatMap (·.events)).length = 0 ↔
          ∀ later ∈ rest, LetsPass part later := by
        rw [Nat.mul_eq_zero, lag_eq_zero_iff positiveHere, silent]
        by_cases lasting : ∀ last ∈ part.getLast?, last.isZeroDuration = false
        · exact iff_of_true (.inl lasting) fun _ _ => .inl lasting
        · simp only [LetsPass, lasting, false_or]
      rw [pieces, Passage.lateness, Nat.add_eq_zero_iff, length_flatMap_pieces, here,
        ih _ positiveLater, List.pairwise_cons]

/-! ## Parts that let one another pass -/

theorem placeBars_of_silent (clock : Clock) {bars : List Bar}
    (silent : ∀ bar ∈ bars, bar.events = []) : (clock.placeBars bars).1 = [] := by
  have messages := clock.map_message_placeBars bars
  rw [List.flatMap_eq_nil_iff.mpr silent] at messages
  exact List.map_eq_nil_iff.mp messages

/-- Bars without events behind a part do not move its events. -/
theorem placeBars_settle_append_of_silent (clock : Clock) (part : List Bar) {rest : List Bar}
    (silent : ∀ bar ∈ rest, bar.events = []) :
    (clock.placeBars (settle [] (part ++ rest))).1 = (clock.placeBars (settle [] part)).1 := by
  by_cases lasting : ∀ last ∈ part.getLast?, last.isZeroDuration = false
  · rw [settle_append_of_lasting lasting, Clock.placeBars_append, settle_of_silent silent,
      placeBars_of_silent _ silent, List.append_nil]
  · cases rest with
    | nil => rw [List.append_nil]
    | cons next others =>
        rcases List.forall_mem_cons.mp silent with ⟨silentHere, silentLater⟩
        have nextLasting : next.isZeroDuration = false := by
          rw [isZeroDuration, silentHere]
          rfl
        rcases List.eq_nil_or_concat' part with rfl | ⟨front, last, rfl⟩
        · exact absurd (by simp) lasting
        · have zero : last.isZeroDuration = true := by simpa using lasting
          -- what is left over happens where the next bar starts, alone or merged into it
          rw [settle_eq_append_leftover? (front ++ [last]), leftover?_concat_of_zero zero,
            settle_append (List.cons_ne_nil next others), settle_cons_of_lasting nextLasting,
            settle_of_silent silentLater, silentHere, List.append_nil,
            Clock.placeBars_append, Clock.placeBars_append]
          simp only [Option.toList, Clock.placeBars, placeBars_of_silent _ silentLater]
          rfl

theorem placeBars_flatMap_settle (clock : Clock) {parts : List (List Bar)}
    (letsPass : parts.Pairwise LetsPass) :
    (clock.placeBars (parts.flatMap (settle []))).1 =
      (clock.placeBars (settle [] parts.flatten)).1 := by
  induction parts generalizing clock with
  | nil => rfl
  | cons part rest ih =>
      rcases List.pairwise_cons.mp letsPass with ⟨letsPassHere, letsPassLater⟩
      rw [List.flatMap_cons, List.flatten_cons, Clock.placeBars_append]
      by_cases lasting : ∀ last ∈ part.getLast?, last.isZeroDuration = false
      · rw [settle_append_of_lasting lasting, Clock.placeBars_append, ih _ letsPassLater]
      · have silent : ∀ bar ∈ rest.flatten, bar.events = [] :=
          List.forall_mem_flatten.mpr fun later member =>
            (letsPassHere later member).resolve_left lasting
        rw [ih _ letsPassLater, settle_of_silent silent, placeBars_of_silent _ silent,
          List.append_nil, placeBars_settle_append_of_silent clock part silent]

end Bar

namespace Timeline

theorem ofBars_flatMap_settle_eq_iff {tempo : UInt16} {parts : List (List Bar)}
    (positive : ∀ bar ∈ parts.flatten, 0 < bar.capacity) :
    ofBars tempo (parts.flatMap (Bar.settle [])) = ofBars tempo (Bar.settle [] parts.flatten) ↔
      parts.Pairwise Bar.LetsPass := by
  constructor
  · intro same
    have apart := perm_map_entry_ofBars tempo (parts.flatMap (Bar.settle []))
    have once := perm_map_entry_ofBars tempo (Bar.settle [] parts.flatten)
    rw [Bar.passageFrom_flatMap_settle, same] at apart
    -- the ticks of all events add up to more if any event comes later
    have sums : ((Passage.stagger (Bar.pieces 0 parts)).map (·.1)).sum =
        (((Bar.pieces 0 parts).flatMap (·.1)).map (·.1)).sum :=
      ((apart.symm.trans (once.trans (Bar.perm_passageFrom_settle_flatten 0 parts))).map _).sum_nat
    rw [Passage.sum_tick_stagger] at sums
    exact (Bar.lateness_pieces_eq_zero_iff 0 positive).mp (Nat.left_eq_add.mp sums.symm)
  · intro letsPass
    have placed := Bar.placeBars_flatMap_settle (Clock.start tempo) letsPass
    simp only [ofBars, flush, add, start, placed]

end Timeline

/-! ## Calls -/

namespace Context

/-- Evaluate calls in order: the bars that each of them puts out, or the first error. -/
def runEach (context : Context) : List (List Declaration) → Except Error (List (List Bar))
  | [] => .ok []
  | declarations :: rest =>
      match context.run declarations with
      | (_, .error error) => .error error
      | (next, .ok bars) => (next.runEach rest).map (bars :: ·)

theorem runEach_cons_eq_ok_iff {context : Context} {declarations : List Declaration}
    {rest : List (List Declaration)} {parts : List (List Bar)} :
    context.runEach (declarations :: rest) = .ok parts ↔
      ∃ next bars later, context.run declarations = (next, .ok bars) ∧
        next.runEach rest = .ok later ∧ parts = bars :: later := by
  rw [runEach]
  rcases context.run declarations with ⟨next, error | bars⟩
  · simp
  · rcases ranRest : next.runEach rest with error | later <;>
      simp [ranRest, Except.map, eq_comm]

end Context

namespace Session

/-- Evaluate calls in order and take the bars of each to a timeline before the next one.
The first error ends it, and so do bars that the timeline does not take in. -/
def feed (session : Session) (timeline : Timeline) :
    List (List Declaration) → Except Error Timeline
  | [] => .ok timeline
  | declarations :: rest =>
      match session.evaluate declarations with
      | (_, some error) => .error error
      | (next, none) => do
          let after ← Error.orOverflow (timeline.add? next.flush.1)
          next.flush.2.feed after rest

theorem feed_eq_of_runEach {context : Context} {timeline : Timeline}
    {calls : List (List Declaration)} {parts : List (List Bar)}
    (ran : context.runEach calls = .ok parts) :
    feed ⟨context, []⟩ timeline calls =
      Error.orOverflow (timeline.add? (parts.flatMap (Bar.settle []))) := by
  induction calls generalizing context timeline parts with
  | nil =>
      cases ran
      rw [feed]
      simp [Timeline.add?, Clock.placeBars?, Error.orOverflow]
  | cons declarations rest ih =>
      rcases Context.runEach_cons_eq_ok_iff.mp ran with ⟨next, bars, later, run, ranRest, rfl⟩
      have evaluated : evaluate ⟨context, []⟩ declarations = (⟨next, bars⟩, none) :=
        evaluate_eq_none_iff_run.mpr ⟨bars, run, rfl⟩
      rw [feed, evaluated, List.flatMap_cons, Timeline.add?_append]
      dsimp only [flush]
      cases timeline.add? (Bar.settle [] bars) with
      | none => rfl
      | some after => exact ih ranRest

theorem buffer_evaluateEach_of_runEach {session : Session} {calls : List (List Declaration)}
    {parts : List (List Bar)} (ran : session.context.runEach calls = .ok parts) :
    (session.evaluateEach calls).buffer = session.buffer ++ parts.flatten := by
  induction calls generalizing session parts with
  | nil =>
      cases ran
      exact (List.append_nil _).symm
  | cons declarations rest ih =>
      rcases Context.runEach_cons_eq_ok_iff.mp ran with ⟨next, bars, later, run, ranRest, rfl⟩
      have evaluated : session.evaluate declarations = (⟨next, session.buffer ++ bars⟩, none) :=
        evaluate_eq_none_iff_run.mpr ⟨bars, run, rfl⟩
      rw [evaluateEach, List.foldl_cons, evaluated, ← evaluateEach, ih ranRest,
        List.flatten_cons, List.append_assoc]

theorem Reachable.evaluateEach {config : Config}
    {definitions : List (String × List Declaration)} {session : Session}
    (reached : Reachable config definitions session) (calls : List (List Declaration)) :
    ∃ definitions, Reachable config definitions (session.evaluateEach calls) := by
  induction calls generalizing definitions session with
  | nil => exact ⟨definitions, reached⟩
  | cons declarations rest ih => exact ih (reached.evaluate declarations)

/-- From accepted settings a timeline takes in the bars of calls one by one exactly if words
hold their ticks. -/
theorem exists_add?_parts_iff {config : Config} (accepted : config.IsAccepted)
    {parts : List (List Bar)} (inRange : ∀ bar ∈ parts.flatten, bar.InRange) :
    (∃ timeline, (Timeline.start config.tempo).add? (parts.flatMap (Bar.settle [])) =
        some timeline) ↔ Bar.TicksFit (parts.flatMap (Bar.settle [])) := by
  have measurable : ∀ bar ∈ parts.flatMap (Bar.settle []), bar.meter.isMeasurable = true := by
    intro bar member
    rcases List.mem_flatMap.mp member with ⟨part, isPart, inPart⟩
    rcases Bar.exists_meter_of_mem_settle inPart with ⟨waited, inBuffer, meter_eq⟩
    exact meter_eq ▸ (inRange waited (List.mem_flatten_of_mem isPart inBuffer)).isMeasurable
  have tempos : ∀ bar ∈ parts.flatMap (Bar.settle []), ∀ event ∈ bar.events, ∀ bpm,
      event.message = .tempo bpm → 0 < bpm.toNat := by
    intro bar member event inBar
    rcases List.mem_flatMap.mp member with ⟨part, isPart, inPart⟩
    have settled := (@Bar.perm_flatMap_events_settle [] part fun _ => rfl).mem_iff.mp
      (List.mem_flatMap.mpr ⟨bar, inPart, inBar⟩)
    rcases List.mem_flatMap.mp settled with ⟨waited, inBuffer, waits⟩
    exact (inRange waited (List.mem_flatten_of_mem isPart inBuffer)).tempo_pos event waits
  rw [Timeline.exists_add?_iff (.start config.tempo), and_iff_right measurable]
  exact Clock.inWords_start_iff_ticksFit accepted.tempo_pos tempos

/-- Calls that are all accepted overflow a timeline that takes their bars call by call exactly
if words do not hold the ticks of these bars.  Otherwise they give it the same messages
whether the session is flushed after each call or once after all of them.  Flushed after each
call, the events of a call come later by all that the calls before it leave over.  So the
timed events are the same exactly if each call lets all calls behind it pass. -/
theorem feed_eq_flush_once_iff {config : Config} (accepted : config.IsAccepted)
    {calls : List (List Declaration)} {parts : List (List Bar)}
    (ran : (ofConfig config).context.runEach calls = .ok parts) :
    let whole := (ofConfig config).evaluateEach calls
    let fed := (ofConfig config).feed (.start config.tempo) calls
    whole.buffer = parts.flatten ∧
      (¬ Bar.TicksFit (parts.flatMap (Bar.settle [])) → fed = .error .overflow) ∧
      (Bar.TicksFit (parts.flatMap (Bar.settle [])) →
        ∃ timeline once, fed = .ok timeline ∧
          Timeline.ofBars? config.tempo whole.flush.1 = some once ∧
          (∃ pieces : List (Passage × Nat),
            List.Forall₂ (fun part piece => piece.2 = Bar.lag part ∧
              (piece.1.map (·.2)).Perm ((part.flatMap (·.events)).map (·.message))) parts pieces ∧
            (once.map TimedEvent.entry).Perm (pieces.flatMap (·.1)) ∧
            (timeline.flush.1.map TimedEvent.entry).Perm (Passage.stagger pieces)) ∧
          (timeline.flush.1 = once ↔ parts.Pairwise Bar.LetsPass)) := by
  intro whole fed
  have buffer_eq : whole.buffer = parts.flatten := buffer_evaluateEach_of_runEach ran
  have fed_eq : fed = _ := feed_eq_of_runEach ran
  rcases Reachable.start.evaluateEach calls with ⟨definitions, reached⟩
  have inRange : ∀ bar ∈ parts.flatten, bar.InRange := buffer_eq ▸ (reached.inRange accepted).2
  have taken_iff := exists_add?_parts_iff accepted inRange
  refine ⟨buffer_eq, fun beyond => ?_, fun fits => ?_⟩
  · rw [fed_eq, Error.orOverflow_eq_error_iff, Option.eq_none_iff_forall_ne_some]
    exact ⟨fun timeline added => beyond (taken_iff.mp ⟨timeline, added⟩), rfl⟩
  · rcases taken_iff.mpr fits with ⟨timeline, added⟩
    have flushed : whole.flush.1 = Bar.settle [] parts.flatten :=
      congrArg (Bar.settle []) buffer_eq
    have returned := reached.inRange_of_mem_flush accepted
    have placed : Timeline.ofBars? config.tempo whole.flush.1 =
        some (Timeline.ofBars config.tempo whole.flush.1) :=
      Timeline.ofBars?_eq_some_iff.mpr ⟨⟨fun bar member => (returned bar member).isMeasurable,
        (Clock.inWords_start_iff_ticksFit accepted.tempo_pos
          fun bar member => (returned bar member).tempo_pos).mpr
            (flushed.symm ▸ fits.settle_flatten)⟩, rfl⟩
    refine ⟨timeline, _, by rw [fed_eq, added]; rfl, placed, ?_⟩
    obtain rfl := ((Timeline.add?_eq_some_iff (.start config.tempo)).mp added).2
    rw [flushed]
    refine ⟨⟨Bar.pieces 0 parts, Bar.forall₂_pieces 0 parts, ?_, ?_⟩, ?_⟩
    · exact (Timeline.perm_map_entry_ofBars config.tempo _).trans
        (Bar.perm_passageFrom_settle_flatten 0 parts)
    · rw [← Bar.passageFrom_flatMap_settle]
      exact Timeline.perm_map_entry_ofBars config.tempo _
    · apply Timeline.ofBars_flatMap_settle_eq_iff
      intro bar member
      exact Bar.capacity_pos (reached.meter_isValid accepted bar (buffer_eq ▸ member))

/-- A call may set a tempo in front of its notes, and the last one may stop behind them. -/
theorem feed_eq_flush_once_tempo_notes_stop :
    let calls : List (List Declaration) :=
      [[.assign 'c' 60, .tempo 60, .notes [.plain 'c']], [.notes [.plain 'c'], .stop]]
    let whole := (ofConfig .standard).evaluateEach calls
    Config.standard.IsAccepted ∧
      whole.buffer.map (·.isZeroDuration) = [true, false, false, true] ∧
      ∃ timeline, (ofConfig .standard).feed (.start Config.standard.tempo) calls = .ok timeline ∧
        Timeline.ofBars? Config.standard.tempo whole.flush.1 = some timeline.flush.1 := by
  intro calls whole
  have accepted : Config.standard.IsAccepted := .inl rfl
  let slow : Event := ⟨.tempo 60, 0, 0, 0⟩
  let struck : Event := ⟨.voice 0 (.noteOn 60 100), 0, 960, 0⟩
  let released : Event := ⟨.voice 0 (.noteOff 60), 960, 0, 0⟩
  let note : Bar := ⟨.common, [struck, released]⟩
  let stop : Bar := ⟨.common, [⟨.stop, 0, 0, 0⟩]⟩
  have ran : (ofConfig .standard).context.runEach calls =
      .ok [[⟨.common, [slow]⟩, note], [note, stop]] := by decide +kernel
  have apart : [[⟨.common, [slow]⟩, note], [note, stop]].flatMap (Bar.settle []) =
      [⟨.common, [slow, struck, released]⟩, note, stop] := by
    simp [Bar.settle, Bar.isZeroDuration, Bar.ofEvents, List.mergeSort, Event.precedes,
      slow, struck, released, note, stop]
  have fits : Bar.TicksFit ([[⟨.common, [slow]⟩, note], [note, stop]].flatMap (Bar.settle [])) :=
    apart ▸ .of_within (by decide) (by decide)
  rcases feed_eq_flush_once_iff accepted ran with ⟨_, _, taken⟩
  rcases taken fits with ⟨timeline, once, fed, placed, _, same_iff⟩
  exact ⟨accepted, by decide +kernel, timeline, fed, same_iff.mpr (by decide) ▸ placed⟩

/-- A tempo that is taken before the first note delays it by a bar. -/
theorem feed_delays_note_behind_tempo :
    let calls : List (List Declaration) := [[.assign 'c' 60, .tempo 60], [.notes [.plain 'c']]]
    let whole := (ofConfig .standard).evaluateEach calls
    Config.standard.IsAccepted ∧
      (∃ parts, (ofConfig .standard).context.runEach calls = .ok parts) ∧
      ∃ timeline once,
        (ofConfig .standard).feed (.start Config.standard.tempo) calls = .ok timeline ∧
        Timeline.ofBars? Config.standard.tempo whole.flush.1 = some once ∧
        timeline.flush.1.map TimedEvent.entry =
          [(0, .tempo 60), (3840, .voice 0 (.noteOn 60 100)), (4800, .voice 0 (.noteOff 60))] ∧
        once.map TimedEvent.entry =
          [(0, .tempo 60), (0, .voice 0 (.noteOn 60 100)), (960, .voice 0 (.noteOff 60))] ∧
        timeline.flush.1 ≠ once := by
  intro calls whole
  let slow : Event := ⟨.tempo 60, 0, 0, 0⟩
  let struck : Event := ⟨.voice 0 (.noteOn 60 100), 0, 960, 0⟩
  let released : Event := ⟨.voice 0 (.noteOff 60), 960, 0, 0⟩
  let parts : List (List Bar) := [[⟨.common, [slow]⟩], [⟨.common, [struck, released]⟩]]
  let start := Timeline.start Config.standard.tempo
  have ran : (ofConfig .standard).context.runEach calls = .ok parts := by decide +kernel
  have apart : parts.flatMap (Bar.settle []) =
      [⟨.common, [slow]⟩, ⟨.common, [struck, released]⟩] := by
    simp [parts, Bar.settle, Bar.isZeroDuration, Bar.ofEvents, List.mergeSort, Event.precedes,
      slow, struck, released]
  have joined : whole.flush.1 = [⟨.common, [slow, struck, released]⟩] := by
    rw [flush, buffer_evaluateEach_of_runEach ran]
    simp [ofConfig, parts, Bar.settle, Bar.isZeroDuration, Bar.ofEvents, List.mergeSort,
      Event.precedes, slow, struck, released]
  let delayed : List TimedEvent := [⟨slow.message, 0, 0⟩, ⟨struck.message, 3840, 4000000000⟩,
    ⟨released.message, 4800, 5000000000⟩]
  let prompt : List TimedEvent := [⟨slow.message, 0, 0⟩, ⟨struck.message, 0, 0⟩,
    ⟨released.message, 960, 1000000000⟩]
  have fed : (ofConfig .standard).feed start calls = .ok ⟨⟨60, 7680, 8000000000⟩, delayed⟩ := by
    have added : start.add? [⟨.common, [slow]⟩, ⟨.common, [struck, released]⟩] =
        some ⟨⟨60, 7680, 8000000000⟩, delayed⟩ := by decide +kernel
    refine (feed_eq_of_runEach ran).trans ?_
    rw [apart, added]
    rfl
  have taken : (Timeline.flush ⟨⟨60, 7680, 8000000000⟩, delayed⟩).1 = delayed :=
    List.mergeSort_of_pairwise (by decide)
  have placed : Timeline.ofBars? Config.standard.tempo whole.flush.1 = some prompt := by
    have added : start.add? [⟨.common, [slow, struck, released]⟩] =
        some ⟨⟨60, 3840, 4000000000⟩, prompt⟩ := by decide +kernel
    rw [joined, Timeline.ofBars?, added]
    exact congrArg some (List.mergeSort_of_pairwise (by decide))
  refine ⟨.inl rfl, ⟨parts, ran⟩, _, prompt, fed, placed, ?_⟩
  rw [taken]
  decide

end Session

end MidiScore
