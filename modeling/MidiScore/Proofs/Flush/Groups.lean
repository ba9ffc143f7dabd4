import Mathlib.Data.List.SplitBy
import MidiScore.Proofs.Bar.WellTimed
import MidiScore.Proofs.Sorting

/-!
# What a flush makes of the buffer

The buffer is cut after every bar that takes up time.  Each group of the cut becomes
one bar: the meter is that of its last bar, the events are those of all its bars in
order of position.  Nothing is lost, doubled or reordered beyond that, and since the
bars that wait have all their events at the start, these stay in front.
-/

namespace MidiScore

namespace Bar

/-- Bars cut after every one that takes up time. -/
def groups (bars : List Bar) : List (List Bar) :=
  bars.splitBy fun bar _ => bar.isZeroDuration

/-- Groups are a cut of bars after every one that takes up time: in every group some bars
of zero duration wait for a last one, which takes up time in all but the last group. -/
structure IsCut (bars : List Bar) (groups : List (List Bar)) : Prop where
  joined : groups.flatten = bars
  waiting : ∀ group ∈ groups, ∃ front host, group = front ++ [host] ∧
    ∀ bar ∈ front, bar.isZeroDuration = true
  hosted : ∀ group ∈ groups.dropLast, ∀ host ∈ group.getLast?, host.isZeroDuration = false

/-- A bar holds the events of a group in order of position, under the meter of the last
bar of the group.  The events of the bars that wait come first, in their own order. -/
structure IsMerge (group : List Bar) (bar : Bar) : Prop where
  meter : group.getLast?.map (·.meter) = some bar.meter
  events : bar.events = (group.flatMap (·.events)).mergeSort Event.precedes
  front : ∀ front host, group = front ++ [host] →
    bar.events = front.flatMap (·.events) ++ host.events.mergeSort Event.precedes

theorem isChain_left_iff {α : Type} {holds : α → Prop} {list : List α} :
    list.IsChain (fun first _ => holds first) ↔ ∀ first ∈ list.dropLast, holds first := by
  induction list with
  | nil => simp
  | cons first rest ih =>
      cases rest with
      | nil => simp
      | cons second rest => simp [ih]

/-- Bars that wait for one that takes up time are the first group together with it. -/
theorem groups_append_cons {front rest : List Bar} {host : Bar}
    (waiting : ∀ bar ∈ front, bar.isZeroDuration = true)
    (ends : host.isZeroDuration = false ∨ rest = []) :
    groups (front ++ host :: rest) = (front ++ [host]) :: groups rest := by
  have first : groups (front ++ [host]) = [front ++ [host]] :=
    List.splitBy_of_isChain (by simp) (isChain_left_iff.mpr (by simpa using waiting))
  rw [List.append_cons, groups, List.splitBy_append, ← groups, ← groups, first]
  · rfl
  · intro last isLast next isNext
    obtain rfl : host = last := by simpa using isLast
    rcases ends with takesTime | rfl
    · exact takesTime
    · contradiction

theorem isCut_groups (bars : List Bar) : IsCut bars (groups bars) where
  joined := List.flatten_splitBy _ bars
  waiting group member := by
    have nonempty := List.ne_nil_of_mem_splitBy member
    refine ⟨group.dropLast, group.getLast nonempty,
      (List.dropLast_append_getLast nonempty).symm, ?_⟩
    exact isChain_left_iff.mp (List.isChain_of_mem_splitBy member)
  hosted := by
    have hosts : (groups bars).IsChain fun group _ =>
        ∀ host ∈ group.getLast?, host.isZeroDuration = false := by
      apply (List.isChain_getLast_head_splitBy _ bars).imp
      rintro group _ ⟨nonempty, _, takesTime⟩ host isHost
      rw [List.getLast?_eq_some_getLast nonempty] at isHost
      cases isHost
      exact takesTime
    exact isChain_left_iff.mp hosts

/-- The bar that comes out for a bar and those that waited for it. -/
theorem isMerge_ofEvents {front : List Bar} (host : Bar)
    (start : ∀ bar ∈ front, ∀ event ∈ bar.events, event.position = 0) :
    IsMerge (front ++ [host])
      (ofEvents host.meter (front.flatMap (·.events) ++ host.events)) where
  meter := by simp [ofEvents]
  events := by simp [ofEvents]
  front := by
    intro others last same
    obtain ⟨rfl, rfl⟩ : front = others ∧ host = last := by simpa using same
    apply Event.mergeSort_append_of_start
    intro event member
    rcases List.mem_flatMap.mp member with ⟨bar, inFront, inBar⟩
    exact start bar inFront event inBar

theorem settle_cons_of_lasting {waiting rest : List _} {bar : Bar}
    (lasting : bar.isZeroDuration = false) :
    settle waiting (bar :: rest) =
      ofEvents bar.meter (waiting ++ bar.events) :: settle [] rest := by
  cases rest <;> simp [settle, lasting]

theorem settle_singleton_of_zero {waiting : List Event} {bar : Bar}
    (zero : bar.isZeroDuration = true) :
    settle waiting [bar] = [ofEvents bar.meter (waiting ++ bar.events)] := by
  simp [settle, zero]

theorem settle_cons_cons_of_zero {waiting : List Event} {bar next : Bar} {rest : List Bar}
    (zero : bar.isZeroDuration = true) :
    settle waiting (bar :: next :: rest) = settle (waiting ++ bar.events) (next :: rest) := by
  simp [settle, zero]

/-- What holds of a bar whatever quiet events are put in front of it holds of all bars of a
flush exactly if it holds of all bars that waited, provided that those of zero duration are
good and quiet. -/
theorem forall_settle_iff (Good : Bar → Prop) (Quiet : Event → Prop) {waiting : List Event}
    {bars : List Bar}
    (merged : ∀ {front : List Event} {bar : Bar}, (∀ event ∈ front, Quiet event) →
      (Good (ofEvents bar.meter (front ++ bar.events)) ↔ Good bar))
    (zeros : ∀ bar ∈ bars, bar.isZeroDuration = true →
      Good bar ∧ ∀ event ∈ bar.events, Quiet event)
    (quiet : ∀ event ∈ waiting, Quiet event) :
    (∀ bar ∈ settle waiting bars, Good bar) ↔ ∀ bar ∈ bars, Good bar := by
  induction bars generalizing waiting with
  | nil => rfl
  | cons bar rest ih =>
      rcases List.forall_mem_cons.mp zeros with ⟨zeroHere, zerosLater⟩
      cases zero : bar.isZeroDuration with
      | true =>
          rcases zeroHere zero with ⟨good, quietHere⟩
          cases rest with
          | nil =>
              rw [settle_singleton_of_zero zero, List.forall_mem_singleton,
                List.forall_mem_singleton, merged quiet]
          | cons next others =>
              have grown := List.forall_mem_append.mpr ⟨quiet, quietHere⟩
              rw [settle_cons_cons_of_zero zero, ih zerosLater grown]
              exact ⟨fun later => List.forall_mem_cons.mpr ⟨good, later⟩,
                fun all => (List.forall_mem_cons.mp all).2⟩
      | false =>
          rw [settle_cons_of_lasting zero, List.forall_mem_cons, List.forall_mem_cons,
            merged quiet, ih zerosLater (by simp)]

/-- Each group of the cut comes out as one bar, those that wait already before them. -/
theorem forall₂_settle (front bars : List Bar)
    (waiting : ∀ bar ∈ front, bar.isZeroDuration = true) (ends : bars = [] → front = [])
    (timed : ∀ bar ∈ front ++ bars, bar.WellTimed) :
    List.Forall₂ IsMerge (groups (front ++ bars)) (settle (front.flatMap (·.events)) bars) := by
  induction bars generalizing front with
  | nil =>
      rw [ends rfl]
      exact .nil
  | cons bar rest ih =>
      have start : ∀ other ∈ front, ∀ event ∈ other.events, event.position = 0 := by
        intro other member
        exact (timed other (List.mem_append_left _ member)).start_of_isZeroDuration
          (waiting other member)
      have merged := isMerge_ofEvents bar start
      cases zero : bar.isZeroDuration with
      | true =>
          cases rest with
          | nil =>
              rw [groups_append_cons waiting (.inr rfl), settle_singleton_of_zero zero]
              exact .cons merged .nil
          | cons next others =>
              have grown := ih (front ++ [bar])
                (by simpa [or_imp, forall_and] using ⟨waiting, zero⟩) nofun
                (by simpa using timed)
              rw [settle_cons_cons_of_zero zero]
              simpa using grown
      | false =>
          rw [groups_append_cons waiting (.inl zero), settle_cons_of_lasting zero]
          apply List.Forall₂.cons merged
          apply ih [] (by simp) (fun _ => rfl)
          intro other member
          exact timed other (List.mem_append_right front (List.mem_cons_of_mem bar member))

theorem exists_of_forall₂ {α β : Type} {related : α → β → Prop} {sources : List α}
    {results : List β} (all : List.Forall₂ related sources results) :
    ∀ result ∈ results, ∃ source ∈ sources, related source result := by
  induction all with
  | nil => simp
  | cons here _ ih =>
      refine List.forall_mem_cons.mpr ⟨⟨_, List.mem_cons_self, here⟩, fun result member => ?_⟩
      rcases ih result member with ⟨source, isSource, holds⟩
      exact ⟨source, List.mem_cons_of_mem _ isSource, holds⟩

/-- The events of a bar that comes out are those of some bars that waited, in order. -/
theorem exists_events_of_mem_settle {bars : List Bar} (timed : ∀ bar ∈ bars, bar.WellTimed)
    {bar : Bar} (member : bar ∈ settle [] bars) :
    ∃ group : List Bar, (∀ other ∈ group, other ∈ bars) ∧
      bar.events = (group.flatMap (·.events)).mergeSort Event.precedes := by
  have merged := forall₂_settle [] bars (by simp) (fun _ => rfl) timed
  rcases exists_of_forall₂ merged bar member with ⟨group, isGroup, merge⟩
  refine ⟨group, fun other inGroup => ?_, merge.events⟩
  rw [← (isCut_groups bars).joined]
  exact List.mem_flatten_of_mem isGroup inGroup

/-- The bars of a flush are those that took up time, and at the end one more if the last
bar takes none. -/
theorem map_meter_settle (waiting : List Event) (bars : List Bar) :
    (settle waiting bars).map (·.meter) =
      (bars.filter (!·.isZeroDuration)).map (·.meter) ++
        (bars.getLast?.filter (·.isZeroDuration)).toList.map (·.meter) := by
  induction bars generalizing waiting with
  | nil => rfl
  | cons bar rest ih =>
      cases zero : bar.isZeroDuration with
      | true =>
          cases rest with
          | nil => simp [settle_singleton_of_zero, zero, ofEvents, Option.filter_some]
          | cons next others => simp [settle_cons_cons_of_zero, zero, ih]
      | false =>
          rw [settle_cons_of_lasting zero]
          cases rest with
          | nil => simp [settle, zero, ofEvents]
          | cons next others => simp [zero, ih, ofEvents]

theorem exists_meter_of_mem_settle {waiting : List Event} {bars : List Bar} {bar : Bar}
    (member : bar ∈ settle waiting bars) : ∃ waited ∈ bars, waited.meter = bar.meter := by
  have listed := List.mem_map_of_mem (f := (·.meter)) member
  rw [map_meter_settle, List.mem_append] at listed
  rcases listed with lasting | last
  · rcases List.mem_map.mp lasting with ⟨waited, inLasting, meter_eq⟩
    exact ⟨waited, List.mem_of_mem_filter inLasting, meter_eq⟩
  · rcases List.mem_map.mp last with ⟨waited, isLast, meter_eq⟩
    rw [Option.mem_toList, Option.filter_eq_some_iff] at isLast
    exact ⟨waited, List.mem_of_getLast? isLast.1, meter_eq⟩

end Bar

namespace Session

/-- What holds of all events that wait holds of all events that a flush returns. -/
theorem Reachable.forall_event_of_mem_flush {Good : Event → Prop} {config : Config}
    {definitions : List (String × List Declaration)} {session : Session}
    (reached : Reachable config definitions session)
    (waits : ∀ bar ∈ session.buffer, ∀ event ∈ bar.events, Good event) :
    ∀ bar ∈ session.flush.1, ∀ event ∈ bar.events, Good event := by
  intro bar member
  rcases Bar.exists_events_of_mem_settle reached.wellTimed member with ⟨group, waited, events_eq⟩
  rw [events_eq]
  intro event sorted
  rcases List.mem_flatMap.mp (List.mem_mergeSort.mp sorted) with ⟨other, inGroup, inBar⟩
  exact waits other (waited other inGroup) event inBar

/-- A flush returns one bar for each group of the buffer, in order, holding exactly the
events of the group; it empties the buffer and leaves all else alone. -/
theorem flush_eq_merged_groups {config : Config}
    {definitions : List (String × List Declaration)} {session : Session}
    (reached : Reachable config definitions session) :
    Bar.IsCut session.buffer (Bar.groups session.buffer) ∧
      List.Forall₂ Bar.IsMerge (Bar.groups session.buffer) session.flush.1 ∧
      session.flush.1.map (·.meter) =
        (session.buffer.filter (!·.isZeroDuration)).map (·.meter) ++
          (session.buffer.getLast?.filter (·.isZeroDuration)).toList.map (·.meter) ∧
      session.flush.2 = ⟨session.context, []⟩ :=
  ⟨Bar.isCut_groups session.buffer,
    Bar.forall₂_settle [] session.buffer (by simp) (fun _ => rfl) reached.wellTimed,
    Bar.map_meter_settle [] session.buffer, rfl⟩

/-- A tempo waits for a rest, and the stop at the end comes out on its own. -/
theorem flush_eq_merged_groups_tempo_rest_stop :
    let session := ((ofConfig .standard).evaluate [.tempo 60, .notes [.plain '-'], .stop]).1
    Reachable .standard [] session ∧
      session.buffer.map (·.isZeroDuration) = [true, false, true] ∧
      Bar.IsCut session.buffer (Bar.groups session.buffer) ∧
      List.Forall₂ Bar.IsMerge (Bar.groups session.buffer) session.flush.1 ∧
      session.flush.1.map (·.meter) = [⟨4, 4⟩, ⟨4, 4⟩] ∧
      session.flush.2 = ⟨session.context, []⟩ := by
  intro session
  have reached : Reachable .standard [] session :=
    .evaluate .start [.tempo 60, .notes [.plain '-'], .stop]
  rcases flush_eq_merged_groups reached with ⟨cut, merged, meters, emptied⟩
  exact ⟨reached, by decide, cut, merged, meters.trans (by decide), emptied⟩

end Session

end MidiScore
