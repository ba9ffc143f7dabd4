import MidiScore.Proofs.Flush.Alone

/-!
# Buffers that are taken in parts

The bars at the end of a buffer that take up no time come out as one bar of their own.  If
the buffer is only a part of what a session puts out, that bar would have been merged into
the next part, had both been taken at once.  Apart from this bar nothing changes: a part
whose last bar takes up time comes out the same whatever follows.
-/

namespace MidiScore

namespace Bar

/-- The bar that a flush puts out for the bars at the end of a buffer that take no time. -/
def leftover? (bars : List Bar) : Option Bar :=
  (bars.getLast?.filter (·.isZeroDuration)).map fun last =>
    ofEvents last.meter ((bars.rtakeWhile (·.isZeroDuration)).flatMap (·.events))

/-- Ticks that a timeline goes on for the bar that is left over. -/
def lag (bars : List Bar) : Nat :=
  ((leftover? bars).map (·.capacity)).getD 0

/-- A part of a buffer makes no event of a later part wait: its last bar takes up time, or the
later part has no events. -/
def LetsPass (part later : List Bar) : Prop :=
  (∀ last ∈ part.getLast?, last.isZeroDuration = false) ∨ ∀ bar ∈ later, bar.events = []

instance (part later : List Bar) : Decidable (LetsPass part later) :=
  inferInstanceAs (Decidable (_ ∨ _))

/-! ## The bar at the end -/

theorem leftover?_concat_of_zero {front : List Bar} {last : Bar}
    (zero : last.isZeroDuration = true) :
    leftover? (front ++ [last]) = some (ofEvents last.meter
      (((front ++ [last]).rtakeWhile (·.isZeroDuration)).flatMap (·.events))) := by
  rw [leftover?, List.getLast?_concat, Option.filter_some, if_pos zero]
  rfl

theorem leftover?_concat_of_lasting {front : List Bar} {last : Bar}
    (lasting : last.isZeroDuration = false) : leftover? (front ++ [last]) = none := by
  rw [leftover?, List.getLast?_concat, Option.filter_some, if_neg (by simp [lasting])]
  rfl

theorem settle_eq_append_leftover? (bars : List Bar) :
    settle [] bars =
      settle [] (bars.rdropWhile (·.isZeroDuration)) ++ (leftover? bars).toList := by
  rcases List.eq_nil_or_concat' bars with rfl | ⟨front, last, rfl⟩
  · rfl
  · cases zero : last.isZeroDuration with
    | true =>
        rw [leftover?_concat_of_zero zero, settle_append (List.cons_ne_nil last []),
          settle_singleton_of_zero zero, List.rdropWhile_concat_pos _ _ _ zero,
          List.rtakeWhile_concat_pos _ _ _ zero, List.flatMap_append, List.flatMap_singleton]
        rfl
    | false =>
        rw [leftover?_concat_of_lasting zero,
          List.rdropWhile_concat_neg _ _ _ (by simp [zero])]
        exact (List.append_nil _).symm

theorem sum_capacity_settle (bars : List Bar) :
    ((settle [] bars).map (·.capacity)).sum =
      ((settle [] (bars.rdropWhile (·.isZeroDuration))).map (·.capacity)).sum + lag bars := by
  rw [settle_eq_append_leftover?, List.map_append, List.sum_append, lag]
  cases leftover? bars <;> simp

/-- A part whose last bar takes up time comes out the same whatever follows. -/
theorem settle_append_of_lasting {part rest : List Bar}
    (lasting : ∀ last ∈ part.getLast?, last.isZeroDuration = false) :
    settle [] (part ++ rest) = settle [] part ++ settle [] rest := by
  rcases List.eq_nil_or_concat' part with rfl | ⟨front, last, rfl⟩
  · rfl
  · have lastLasting : ¬ last.isZeroDuration = true := by simpa using lasting
    cases rest with
    | nil => simp [settle]
    | cons next others =>
        rw [settle_append (List.cons_ne_nil next others),
          List.rdropWhile_concat_neg _ _ _ lastLasting,
          List.rtakeWhile_concat_neg _ _ _ lastLasting]
        rfl

theorem lag_eq_zero_iff {bars : List Bar} (positive : ∀ bar ∈ bars, 0 < bar.capacity) :
    lag bars = 0 ↔ ∀ last ∈ bars.getLast?, last.isZeroDuration = false := by
  rcases List.eq_nil_or_concat' bars with rfl | ⟨front, last, rfl⟩
  · exact iff_of_true rfl nofun
  · rw [lag, List.getLast?_concat]
    cases zero : last.isZeroDuration with
    | true =>
        have lasts : 0 < last.capacity := positive last List.mem_concat_self
        rw [leftover?_concat_of_zero zero]
        simpa [ofEvents, capacity, zero] using lasts.ne'
    | false =>
        rw [leftover?_concat_of_lasting zero]
        simpa using zero

/-! ## Events -/

/-- A flush keeps all events, those that wait already counted in. -/
theorem perm_flatMap_events_settle {waiting : List Event} {bars : List Bar}
    (ends : bars = [] → waiting = []) :
    ((settle waiting bars).flatMap (·.events)).Perm (waiting ++ bars.flatMap (·.events)) := by
  induction bars generalizing waiting with
  | nil =>
      rw [ends rfl]
      exact .nil
  | cons bar rest ih =>
      have sorted : (ofEvents bar.meter (waiting ++ bar.events)).events.Perm
          (waiting ++ bar.events) := List.mergeSort_perm _ _
      rw [List.flatMap_cons, ← List.append_assoc]
      cases zero : bar.isZeroDuration with
      | false =>
          rw [settle_cons_of_lasting zero]
          exact sorted.append (ih fun _ => rfl)
      | true =>
          cases rest with
          | nil =>
              rw [settle_singleton_of_zero zero]
              exact sorted.append .nil
          | cons next others =>
              rw [settle_cons_cons_of_zero zero]
              exact ih nofun

/-- Bars without events come out as they are. -/
theorem settle_of_silent {bars : List Bar} (silent : ∀ bar ∈ bars, bar.events = []) :
    settle [] bars = bars := by
  induction bars with
  | nil => rfl
  | cons bar rest ih =>
      rcases List.forall_mem_cons.mp silent with ⟨silentHere, silentLater⟩
      have lasting : bar.isZeroDuration = false := by rw [isZeroDuration, silentHere]; rfl
      have unchanged : ofEvents bar.meter [] = bar := by
        rw [ofEvents, List.mergeSort_nil, ← silentHere]
      rw [settle_cons_of_lasting lasting, ih silentLater, silentHere, List.append_nil, unchanged]

end Bar

end MidiScore
