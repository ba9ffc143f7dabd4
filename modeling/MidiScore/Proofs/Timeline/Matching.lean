import MidiScore.Proofs.Timeline.ClosedForm
import MidiScore.Proofs.Timeline.Sounding

/-!
# Every release answers a strike

In a song in order of tick the numbers of strikes and releases are enough to match every
release with an earlier strike of its key: the first one with the first, the second one
with the second, and so on.  What is left over are the notes that ring.
-/

namespace MidiScore

/-- If below each bound there are at least as many of the first items as there are second
items up to it, the first items lie below the second ones, one by one. -/
theorem forall₂_lt_of_countP_le {α β : Type} {early : α → Nat} {late : β → Nat}
    {first : List α} {second : List β}
    (sorted : first.Pairwise fun one other => early one ≤ early other)
    (sortedLate : second.Pairwise fun one other => late one ≤ late other)
    (enough : ∀ bound, second.countP (late · ≤ bound) ≤ first.countP (early · < bound)) :
    List.Forall₂ (fun one other => early one < late other) (first.take second.length)
      second := by
  induction second generalizing first with
  | nil => exact .nil
  | cons other others ih =>
      rcases List.pairwise_cons.mp sortedLate with ⟨leastLate, sortedLate⟩
      have present : 0 < first.countP (early · < late other) := by
        refine Nat.lt_of_lt_of_le ?_ (enough (late other))
        simp
      cases first with
      | nil => simp at present
      | cons one rest =>
          rcases List.pairwise_cons.mp sorted with ⟨least, sorted⟩
          have below : early one < late other := by
            rcases List.countP_pos_iff.mp present with ⟨found, member, under⟩
            have under : early found < late other := by simpa using under
            rcases List.mem_cons.mp member with rfl | later
            · exact under
            · exact Nat.lt_of_le_of_lt (least found later) under
          refine .cons below (ih sorted sortedLate fun bound => ?_)
          by_cases reached : late other ≤ bound
          · have here := enough bound
            have under : early one < bound := Nat.lt_of_lt_of_le below reached
            simpa [reached, under] using here
          · -- all second items lie above the bound
            have absent : others.countP (late · ≤ bound) = 0 := by
              refine List.countP_eq_zero.mpr fun item member => ?_
              have after := leastLate item member
              simp only [decide_eq_true_eq]
              omega
            exact absent ▸ Nat.zero_le _

theorem countP_le_of_forall₂ {α β : Type} {related : α → β → Prop} {first : List α}
    {second : List β} {holds : α → Bool} {wanted : β → Bool}
    (all : List.Forall₂ related first second)
    (carries : ∀ one other, related one other → wanted other → holds one) :
    second.countP wanted ≤ first.countP holds := by
  induction all with
  | nil => exact Nat.le_refl 0
  | @cons one other _ _ here _ ih =>
      rw [List.countP_cons, List.countP_cons]
      cases wants : wanted other with
      | false => exact Nat.le_trans ih (Nat.le_add_right _ _)
      | true => simpa [carries one other here wants] using ih

namespace TimedEvent

/-- The strikes of a key in a song, each with its place. -/
def strikesOf (channel key : UInt8) (events : List TimedEvent) : List (TimedEvent × Nat) :=
  events.zipIdx.filter (·.1.message.strikes channel key)

/-- The releases of a key in a song, each with its place. -/
def releasesOf (channel key : UInt8) (events : List TimedEvent) : List (TimedEvent × Nat) :=
  events.zipIdx.filter (·.1.message.releases channel key)

/-- Some strikes of a key are matched one by one with all of its releases, each with one at
a later place and tick; the other strikes are left over. -/
structure Matching (channel key : UInt8) (events : List TimedEvent)
    (matched unmatched : List (TimedEvent × Nat)) : Prop where
  strikes : (matched ++ unmatched).Perm (strikesOf channel key events)
  earlier : List.Forall₂
    (fun struck released => struck.2 < released.2 ∧ struck.1.tick < released.1.tick)
    matched (releasesOf channel key events)

/-! ## Places -/

theorem countP_zipIdx (holds : TimedEvent → Bool) (events : List TimedEvent) :
    events.zipIdx.countP (holds ·.1) = events.countP holds := by
  conv_rhs => rw [← List.zipIdx_map_fst 0 events, List.countP_map]
  rfl

/-- The events of a front are those at the places in front of its end. -/
theorem countP_front (holds : TimedEvent → Bool) (front back : List TimedEvent) :
    front.countP holds =
      ((front ++ back).zipIdx.filter (holds ·.1)).countP (·.2 < front.length) := by
  have here : (front.zipIdx.filter (holds ·.1)).countP (·.2 < front.length) =
      front.countP holds := by
    rw [List.countP_eq_length.mpr, ← List.countP_eq_length_filter, countP_zipIdx]
    intro entry member
    have within := List.snd_lt_of_mem_zipIdx (List.mem_filter.mp member).1
    simpa using within
  have behind : ((back.zipIdx front.length).filter (holds ·.1)).countP (·.2 < front.length) =
      0 := by
    rw [List.countP_eq_zero]
    intro entry member
    have after := List.le_snd_of_mem_zipIdx (List.mem_filter.mp member).1
    simpa using after
  rw [List.zipIdx_append, List.filter_append, List.countP_append, Nat.zero_add, here, behind,
    Nat.add_zero]

section

variable {channel key : UInt8} {events : List TimedEvent}
  {matched unmatched : List (TimedEvent × Nat)}

/-- In order of tick, what comes at an earlier tick stands at an earlier place. -/
theorem place_lt_of_tick_lt
    (sorted : events.Pairwise fun first second => first.tick ≤ second.tick)
    {first second : TimedEvent × Nat} (isFirst : first ∈ events.zipIdx)
    (isSecond : second ∈ events.zipIdx) (earlier : first.1.tick < second.1.tick) :
    first.2 < second.2 := by
  have foundFirst := List.mem_zipIdx_iff_getElem?.mp isFirst
  have foundSecond := List.mem_zipIdx_iff_getElem?.mp isSecond
  rcases List.getElem?_eq_some_iff.mp foundFirst with ⟨within, first_eq⟩
  rcases List.getElem?_eq_some_iff.mp foundSecond with ⟨withinSecond, second_eq⟩
  by_contra notBefore
  rcases Nat.lt_or_eq_of_le (Nat.not_lt.mp notBefore) with after | same
  · have ordered := List.pairwise_iff_getElem.mp sorted _ _ withinSecond within after
    rw [first_eq, second_eq] at ordered
    omega
  · rw [same, foundFirst] at foundSecond
    rw [Option.some.inj foundSecond] at earlier
    exact Nat.lt_irrefl _ earlier

/-! ## The first with the first -/

theorem countP_strikesOf (bound : Nat) :
    (strikesOf channel key events).countP (·.1.tick < bound) =
      Passage.struckBefore (events.map entry) channel key bound := by
  rw [strikesOf, List.countP_filter, Passage.struckBefore, List.countP_map,
    ← countP_zipIdx]
  congr 1
  funext place
  exact Bool.and_comm _ _

theorem countP_releasesOf (bound : Nat) :
    (releasesOf channel key events).countP (·.1.tick ≤ bound) =
      Passage.releasedUpTo (events.map entry) channel key bound := by
  rw [releasesOf, List.countP_filter, Passage.releasedUpTo, List.countP_map,
    ← countP_zipIdx]
  congr 1
  funext place
  exact Bool.and_comm _ _

/-- Where strikes and releases are those of some notes, each release can be matched. -/
theorem exists_matching (channel key : UInt8) {notes : List Sounding}
    (sounds : Passage.Sounds (events.map entry) notes)
    (sorted : events.Pairwise fun first second => first.tick ≤ second.tick) :
    ∃ matched unmatched, Matching channel key events matched unmatched := by
  have indexed : events.zipIdx.Pairwise fun first second => first.1.tick ≤ second.1.tick := by
    rw [← List.zipIdx_map_fst 0 events, List.pairwise_map] at sorted
    exact sorted
  have enough (bound : Nat) : (releasesOf channel key events).countP (·.1.tick ≤ bound) ≤
      (strikesOf channel key events).countP (·.1.tick < bound) := by
    rw [countP_strikesOf, countP_releasesOf]
    exact sounds.struckFirst channel key bound
  have earlier : List.Forall₂
      (fun struck released : TimedEvent × Nat => struck.1.tick < released.1.tick)
      ((strikesOf channel key events).take (releasesOf channel key events).length)
      (releasesOf channel key events) :=
    forall₂_lt_of_countP_le (indexed.filter _) (indexed.filter _) enough
  refine ⟨(strikesOf channel key events).take (releasesOf channel key events).length,
    (strikesOf channel key events).drop (releasesOf channel key events).length,
    .of_eq (List.take_append_drop _ _), ?_⟩
  have placed := (List.forall₂_and_left _ _).mpr
    ⟨fun struck member => (List.mem_filter.mp (List.mem_of_mem_take member)).1, earlier⟩
  have placedBoth := (List.forall₂_and_left _ _).mpr
    ⟨fun released member => (List.mem_filter.mp member).1, placed.flip⟩
  exact placedBoth.flip.imp fun struck released ⟨isReleased, isStruck, before⟩ =>
    ⟨place_lt_of_tick_lt sorted isStruck isReleased before, before⟩

theorem Matching.countP_releases_le (matching : Matching channel key events matched unmatched)
    {front : List TimedEvent} (isFront : front <+: events) :
    front.countP (·.message.releases channel key) ≤
      front.countP (·.message.strikes channel key) := by
  rcases isFront with ⟨back, rfl⟩
  rw [countP_front _ front back, countP_front _ front back]
  calc
    (releasesOf channel key (front ++ back)).countP (·.2 < front.length) ≤
        matched.countP (·.2 < front.length) :=
      countP_le_of_forall₂ matching.earlier fun struck released before => by
        simpa using fun within => Nat.lt_trans before.1 within
    _ ≤ (matched ++ unmatched).countP (·.2 < front.length) := by
      rw [List.countP_append]
      exact Nat.le_add_right _ _
    _ = (strikesOf channel key (front ++ back)).countP (·.2 < front.length) :=
      matching.strikes.countP_eq _

/-- What no matching can match are the notes that ring. -/
theorem Matching.length_unmatched {notes : List Sounding}
    (matching : Matching channel key events matched unmatched)
    (sounds : Passage.Sounds (events.map entry) notes) :
    unmatched.length = notes.count ⟨channel, key, true⟩ := by
  have strikes : (strikesOf channel key events).length =
      (events.map entry).countP (·.2.strikes channel key) := by
    rw [strikesOf, ← List.countP_eq_length_filter, countP_zipIdx (·.message.strikes channel key),
      List.countP_map]
    rfl
  have releases : (releasesOf channel key events).length =
      (events.map entry).countP (·.2.releases channel key) := by
    rw [releasesOf, ← List.countP_eq_length_filter,
      countP_zipIdx (·.message.releases channel key), List.countP_map]
    rfl
  have total := matching.strikes.length_eq
  have pairs := matching.earlier.length_eq
  have ringing := sounds.ringing channel key
  rw [List.length_append] at total
  omega

end

end TimedEvent

/-- In the events of a score no key is released more often than it was struck; every release
can be matched with a strike of its own at an earlier place and tick; and what is left over
by any such matching are as many strikes as notes of the key are left to ring. -/
theorem sequence_matching {config : Config} {declarations : List Declaration}
    {events : List TimedEvent} (sequenced : sequence config declarations = .ok events)
    (channel key : UInt8) :
    (∀ front, front <+: events →
      front.countP (·.message.releases channel key) ≤
        front.countP (·.message.strikes channel key)) ∧
    (∃ matched unmatched, TimedEvent.Matching channel key events matched unmatched) ∧
    ∀ matched unmatched, TimedEvent.Matching channel key events matched unmatched →
      unmatched.length =
        (((Session.ofConfig config).context.putAfter [] declarations).flatMap
          Source.soundings).count ⟨channel, key, true⟩ := by
  have sounds := sounds_of_sequence sequenced
  have sorted : events.Pairwise fun first second => first.tick ≤ second.tick := by
    rcases exists_bars_of_sequence sequenced with ⟨bars, _, rfl⟩
    exact Timeline.pairwise_ofBars config.tempo bars
  have matchable := TimedEvent.exists_matching channel key sounds sorted
  refine ⟨fun front isFront => ?_, matchable, fun _ _ matching => matching.length_unmatched sounds⟩
  rcases matchable with ⟨matched, unmatched, matching⟩
  exact matching.countP_releases_le isFront

/-- A bar with a voice that rings above one that does not, on one key, played twice. -/
theorem sequence_matching_ringing_twice :
    let ringing : Note := ⟨'c', [.letRing], Property.fault?_eq_none_iff.mp rfl, by decide⟩
    let body : List Declaration := [.notes [ringing], .notes [.plain 'c', .plain 'c']]
    let score : List Declaration :=
      [.assign 'c' 60, .defineBar "bell" body, .play "bell", .play "bell"]
    ∃ events, sequence .standard score = .ok events ∧
      ∃ matched unmatched, TimedEvent.Matching 0 60 events matched unmatched ∧
        unmatched.length = 2 := by
  intro ringing body score
  let struck : Event := ⟨.voice 0 (.noteOn 60 100), 0, 960, 0⟩
  let released : Event := ⟨.voice 0 (.noteOff 60), 960, 0, 0⟩
  let bell : Bar := ⟨.common, [struck, struck, released, { struck with position := 960 },
    { released with position := 1920 }]⟩
  have compiled : compile .standard score = .ok [bell, bell] := by
    have waits : ((Session.ofConfig .standard).evaluate score).1.buffer = [bell, bell] := by
      decide +kernel
    have sorted : Bar.ofEvents .common bell.events = bell :=
      congrArg (Bar.mk .common) (List.mergeSort_of_pairwise (by decide))
    refine Session.compile_eq_ok_iff.mpr ⟨by decide +kernel, ?_⟩
    rw [Session.flush, waits]
    exact congrArg (fun bar => [bar, bar]) sorted
  rcases exists_sequence_of_within (.inl rfl) compiled (by decide)
    (List.forall_mem_cons.mpr ⟨by decide, List.forall_mem_singleton.mpr (by decide)⟩)
    with ⟨events, sequenced⟩
  rcases sequence_matching sequenced 0 60 with ⟨_, ⟨matched, unmatched, matching⟩, length_eq⟩
  have rings : (((Session.ofConfig .standard).context.putAfter [] score).flatMap
      Source.soundings).count ⟨0, 60, true⟩ = 2 := by decide +kernel
  exact ⟨events, sequenced, matched, unmatched, matching, (length_eq _ _ matching).trans rings⟩

end MidiScore
