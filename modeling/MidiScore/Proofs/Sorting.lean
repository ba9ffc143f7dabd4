import MidiScore.Session.Flush

/-!
# Stable sorting

Merge sort leaves a sorted front in place when none of it comes after the rest.
Events by position are such an order, so that whatever stands at the start of a bar
and is put in front of other events stays in front of them.

Items that no order tells apart keep the order they had, `filter_mergeSort`.  What holds
between any two items of one key, the earlier given first, is therefore not affected by
sorting, `pairwise_ties_mergeSort_iff`, and a list in order that has the items of each key
as they were is the sorted one, `mergeSort_key_eq`.
-/

namespace MidiScore

section

variable {α : Type} {le : α → α → Bool} (trans : ∀ a b c, le a b → le b c → le a c)
  (total : ∀ a b, le a b || le b a)

include trans total

theorem mergeSort_cons_of_least {first : α} {rest : List α}
    (least : ∀ other ∈ rest, le first other) :
    (first :: rest).mergeSort le = first :: rest.mergeSort le := by
  rcases List.mergeSort_cons trans total first rest with ⟨front, back, sorted, split, before⟩
  have front_eq : front = [] := by
    apply List.eq_nil_iff_forall_not_mem.mpr
    intro other member
    have inSorted : other ∈ rest.mergeSort le := by
      rw [split]
      exact List.mem_append_left back member
    have inRest : other ∈ rest := List.mem_mergeSort.mp inSorted
    have after := before other member
    simp [least other inRest] at after
  rw [sorted, split, front_eq, List.nil_append, List.nil_append]

theorem mergeSort_append_of_pairwise {front rest : List α}
    (sorted : front.Pairwise fun first second => le first second)
    (before : ∀ first ∈ front, ∀ second ∈ rest, le first second) :
    (front ++ rest).mergeSort le = front ++ rest.mergeSort le := by
  induction front with
  | nil => rfl
  | cons first others ih =>
      rcases List.pairwise_cons.mp sorted with ⟨least, sorted⟩
      rw [List.cons_append, mergeSort_cons_of_least trans total, ih sorted, List.cons_append]
      · exact fun other member => before other (List.mem_cons_of_mem first member)
      · intro other member
        rcases List.mem_append.mp member with inFront | inRest
        · exact least other inFront
        · exact before first List.mem_cons_self other inRest

/-- Items that are in order among themselves are kept as they stand. -/
theorem filter_mergeSort_of_pairwise {among : α → Bool} {list : List α}
    (sorted : (list.filter among).Pairwise fun first second => le first second) :
    (list.mergeSort le).filter among = list.filter among := by
  have sublist : (list.filter among).Sublist ((list.mergeSort le).filter among) := by
    have kept := (List.sublist_mergeSort trans total sorted List.filter_sublist).filter among
    simpa using kept
  have length := ((List.mergeSort_perm list le).filter among).length_eq
  exact (sublist.eq_of_length length.symm).symm

/-- Items that come in any order among themselves are kept as they stand. -/
theorem filter_mergeSort {among : α → Bool} {list : List α}
    (tied : ∀ first second, among first → among second → le first second) :
    (list.mergeSort le).filter among = list.filter among := by
  apply filter_mergeSort_of_pairwise trans total
  apply List.pairwise_of_forall_mem_list
  intro first inFirst second inSecond
  exact tied first second (List.mem_filter.mp inFirst).2 (List.mem_filter.mp inSecond).2

end

theorem pairwise_mergeSort_key {α : Type} {key : α → Nat} (list : List α) :
    (list.mergeSort fun first second => key first ≤ key second).Pairwise
      fun first second => key first ≤ key second := by
  refine (List.pairwise_mergeSort ?_ ?_ list).imp of_decide_eq_true
  · simpa using fun first second third => Nat.le_trans
  · simpa using fun first second => Nat.le_total (key first) (key second)

theorem pairwise_ties_iff {α : Type} {key : α → Nat} {related : α → α → Prop} {list : List α} :
    list.Pairwise (fun first second => key first = key second → related first second) ↔
      ∀ value, (list.filter (key · = value)).Pairwise related := by
  simp only [List.pairwise_filter, decide_eq_true_eq]
  constructor
  · intro ties value
    exact ties.imp fun holds isFirst isSecond => holds (isFirst.trans isSecond.symm)
  · intro all
    rw [List.pairwise_iff_forall_sublist]
    intro first second sublist same
    have here := List.pairwise_iff_forall_sublist.mp (all (key second)) sublist
    exact here same rfl

/-- What is taken of items in order of a key comes as if they were not sorted. -/
theorem filterMap_key_mergeSort {α β : Type} {key : α → Nat} {taken : α → Option β}
    {list : List α}
    (sorted : list.Pairwise fun first second =>
      (taken first).isSome → (taken second).isSome → key first ≤ key second) :
    (list.mergeSort fun first second => key first ≤ key second).filterMap taken =
      list.filterMap taken := by
  have among (items : List α) :
      (items.filter (taken · |>.isSome)).filterMap taken = items.filterMap taken := by
    rw [List.filterMap_filter]
    congr 1
    funext item
    cases taken item <;> rfl
  rw [← among (list.mergeSort _), filter_mergeSort_of_pairwise, among]
  · simpa using fun first second third => Nat.le_trans
  · simpa using fun first second => Nat.le_total (key first) (key second)
  · exact (List.pairwise_filter.mpr sorted).imp decide_eq_true

theorem filter_key_mergeSort {α : Type} {key : α → Nat} (list : List α) (value : Nat) :
    (list.mergeSort fun first second => key first ≤ key second).filter (key · = value) =
      list.filter (key · = value) := by
  apply filter_mergeSort
  · simpa using fun first second third => Nat.le_trans
  · simpa using fun first second => Nat.le_total (key first) (key second)
  · intro first second isFirst isSecond
    simp only [decide_eq_true_eq] at isFirst isSecond ⊢
    exact Nat.le_of_eq (isFirst.trans isSecond.symm)

/-- Sorting by a key leaves alone what holds between any two items of one key. -/
theorem pairwise_ties_mergeSort_iff {α : Type} {key : α → Nat} {related : α → α → Prop}
    {list : List α} :
    (list.mergeSort fun first second => key first ≤ key second).Pairwise
        (fun first second => key first = key second → related first second) ↔
      list.Pairwise fun first second => key first = key second → related first second := by
  simp only [pairwise_ties_iff, filter_key_mergeSort]

theorem mem_iff_of_filter_key_eq {α : Type} {key : α → Nat} {first second : List α}
    (same : ∀ value, first.filter (key · = value) = second.filter (key · = value)) (item : α) :
    item ∈ first ↔ item ∈ second := by
  have here := congrArg (item ∈ ·) (same (key item))
  simpa using here

/-- Lists in order of a key are the same if their items of each key are. -/
theorem eq_of_filter_key_eq {α : Type} {key : α → Nat} {first second : List α}
    (sorted : first.Pairwise fun one other => key one ≤ key other)
    (sortedSecond : second.Pairwise fun one other => key one ≤ key other)
    (same : ∀ value, first.filter (key · = value) = second.filter (key · = value)) :
    first = second := by
  induction first generalizing second with
  | nil =>
      symm
      exact List.eq_nil_iff_forall_not_mem.mpr fun item member =>
        List.not_mem_nil ((mem_iff_of_filter_key_eq same item).mpr member)
  | cons one others ih =>
      cases second with
      | nil =>
          exact absurd ((mem_iff_of_filter_key_eq same one).mp List.mem_cons_self) List.not_mem_nil
      | cons other rest =>
          rcases List.pairwise_cons.mp sorted with ⟨least, sortedOthers⟩
          rcases List.pairwise_cons.mp sortedSecond with ⟨leastSecond, sortedRest⟩
          have isHead (item : α) : item ∈ one :: others ↔ item ∈ other :: rest :=
            mem_iff_of_filter_key_eq same item
          have equal : key one = key other := by
            apply Nat.le_antisymm
            · rcases List.mem_cons.mp ((isHead other).mpr List.mem_cons_self) with rfl | later
              · exact Nat.le_refl _
              · exact least other later
            · rcases List.mem_cons.mp ((isHead one).mp List.mem_cons_self) with rfl | later
              · exact Nat.le_refl _
              · exact leastSecond one later
          have heads := same (key one)
          rw [List.filter_cons_of_pos (by simp), List.filter_cons_of_pos (by simp [equal])] at heads
          obtain rfl : one = other := (List.cons.inj heads).1
          refine congrArg (one :: ·) (ih sortedOthers sortedRest fun value => ?_)
          have here := same value
          by_cases isKey : key one = value <;> simpa [isKey] using here

/-- A sort by a key is the only list in order that has the items of each key as they were. -/
theorem mergeSort_key_eq {α : Type} {key : α → Nat} {list sorted : List α}
    (ordered : sorted.Pairwise fun first second => key first ≤ key second)
    (same : ∀ value, sorted.filter (key · = value) = list.filter (key · = value)) :
    (list.mergeSort fun first second => key first ≤ key second) = sorted :=
  eq_of_filter_key_eq (pairwise_mergeSort_key list) ordered fun value =>
    (filter_key_mergeSort list value).trans (same value).symm

namespace Event

theorem precedes_trans (first second third : Event) (earlier : first.precedes second)
    (later : second.precedes third) : first.precedes third := by
  simp only [precedes, decide_eq_true_eq] at *
  exact Nat.le_trans earlier later

theorem precedes_total (first second : Event) : first.precedes second || second.precedes first := by
  simp only [precedes, Bool.or_eq_true, decide_eq_true_eq]
  exact Nat.le_total _ _

theorem pairwise_mergeSort (events : List Event) :
    (events.mergeSort precedes).Pairwise fun first second => first.precedes second :=
  List.pairwise_mergeSort precedes_trans precedes_total events

/-- Events at the start of a bar stay in front of all others. -/
theorem mergeSort_append_of_start {front rest : List Event}
    (start : ∀ event ∈ front, event.position = 0) :
    (front ++ rest).mergeSort precedes = front ++ rest.mergeSort precedes := by
  apply mergeSort_append_of_pairwise precedes_trans precedes_total
  · apply List.pairwise_of_forall_mem_list
    intro first member second _
    simp [precedes, start first member]
  · intro first member second _
    simp [precedes, start first member]

end Event

end MidiScore
