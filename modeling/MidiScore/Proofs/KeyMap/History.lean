import Mathlib.Data.List.Dedup
import MidiScore.Proofs.KeyMap

/-!
# Key maps and their histories

Of all that is bound in a map, it keeps the first key for each name on a channel,
`get?_setAll`, in one order whatever the order of binding.  Maps that answer alike are
therefore equal, `eq_of_forall_get?_eq`, so nothing else of a history can be found out from
the map that it leaves.
-/

namespace MidiScore.KeyMap

namespace Binding

/-- What the binding binds: a name on a channel. -/
def name (binding : Binding) : UInt8 × Char :=
  (binding.channel, binding.note)

/-- Channels come in their order, and the names on one channel in that of their code points. -/
def Before (first second : Binding) : Prop :=
  first.channel < second.channel ∨
    first.channel = second.channel ∧ first.note.toNat < second.note.toNat

theorem before_iff_place_lt {first second : Binding} :
    first.Before second ↔ first.place < second.place := by
  have firstNote := toNat_lt_limit first.note
  have secondNote := toNat_lt_limit second.note
  rw [Before, UInt8.lt_iff_toNat_lt, ← UInt8.toNat_inj]
  simp only [place, KeyMap.place]
  omega

theorem name_eq_iff_place_eq {first second : Binding} :
    first.name = second.name ↔ first.place = second.place := by
  rw [place, place, place_inj, name, name, Prod.mk.injEq]

end Binding

/-- Bindings made one after the other: which of them found their name free, and the map
afterwards. -/
def setAll (map : KeyMap) : List Binding → List Bool × KeyMap
  | [] => ([], map)
  | binding :: rest =>
      let (free, next) := map.set binding.channel binding.note binding.key
      let (others, last) := setAll next rest
      (free :: others, last)

/-- The key in the first of some bindings that is for the name on the channel. -/
def firstKey? (history : List Binding) (channel : UInt8) (note : Char) : Option UInt8 :=
  (history.find? (·.name = (channel, note))).map (·.key)

variable {map other : KeyMap} {channel : UInt8} {note : Char} {key : UInt8}

/-! ## One binding -/

theorem set_eq :
    map.set channel note key =
      ((map.get? channel note).isNone, (map.bind? channel note key).getD map) := by
  have refused := @bind?_eq_none_iff map channel note key
  rw [set]
  cases bound : map.bind? channel note key with
  | none => simp [refused.mp bound]
  | some next =>
      have free : map.get? channel note = none := by simpa [bound] using refused
      simp [free]

/-- The key that a name has already stays, and a name without one gets the new one. -/
theorem get?_set (channel other : UInt8) (note name : Char) (key : UInt8) :
    (map.set channel note key).2.get? other name =
      (map.get? other name).or (if (channel, note) = (other, name) then some key else none) := by
  rw [set_eq]
  cases known : map.get? channel note with
  | none =>
      rw [get?_getD_bind? known]
      by_cases here : (channel, note) = (other, name)
      · cases here
        simp [known]
      · have elsewhere : ¬ (other = channel ∧ name = note) := by
          rintro ⟨rfl, rfl⟩
          exact here rfl
        rw [if_neg here, if_neg elsewhere, Option.or_none]
  | some old =>
      have refused : map.bind? channel note key = none := by
        rw [bind?_eq_none_iff, known]
        rfl
      rw [refused, Option.getD_none]
      by_cases here : (channel, note) = (other, name)
      · cases here
        simp [known]
      · rw [if_neg here, Option.or_none]

/-! ## Many bindings -/

/-- After some bindings a name has the key it had before them, or else the first that is for
it. -/
theorem get?_setAll (history : List Binding) (channel : UInt8) (note : Char) :
    (map.setAll history).2.get? channel note =
      (map.get? channel note).or (firstKey? history channel note) := by
  induction history generalizing map with
  | nil => simp [setAll, firstKey?]
  | cons binding rest ih =>
      rw [setAll, ih, get?_set, Option.or_assoc, firstKey?, firstKey?, List.find?_cons]
      by_cases here : binding.name = (channel, note)
      · have same : (binding.channel, binding.note) = (channel, note) := here
        simp [here, same]
      · have different : ¬ (binding.channel, binding.note) = (channel, note) := here
        simp [here, different]

/-- A binding finds its name free if it had no key before, and no earlier binding is for it. -/
theorem getElem?_setAll (map : KeyMap) (history : List Binding) (i : Nat) :
    (map.setAll history).1[i]? = history[i]?.map fun binding =>
      decide (map.get? binding.channel binding.note = none ∧
        ∀ earlier ∈ history.take i, earlier.name ≠ binding.name) := by
  induction history generalizing map i with
  | nil => simp [setAll]
  | cons binding rest ih =>
      rw [setAll]
      cases i with
      | zero =>
          have free : (map.get? binding.channel binding.note).isNone =
              decide (map.get? binding.channel binding.note = none) := by
            rw [Bool.eq_iff_iff, Option.isNone_iff_eq_none, decide_eq_true_iff]
          simp [set_eq, free]
      | succ i =>
          rw [List.getElem?_cons_succ, List.getElem?_cons_succ, ih]
          congr 1
          funext later
          simp [get?_set, Binding.name, and_assoc]

/-! ## What is listed -/

theorem nodup_map_name (map : KeyMap) : (map.toList.map Binding.name).Nodup := by
  refine List.pairwise_map.mpr (map.sorted.imp fun before same => ?_)
  exact Nat.ne_of_lt before (Binding.name_eq_iff_place_eq.mp same)

theorem nodup_toList (map : KeyMap) : map.toList.Nodup :=
  List.Nodup.of_map _ map.nodup_map_name

theorem pairwise_before (map : KeyMap) : map.toList.Pairwise Binding.Before :=
  map.sorted.imp Binding.before_iff_place_lt.mpr

/-- A name with a key is listed once, with that key, and a name without one not at all. -/
theorem filter_toList (map : KeyMap) (channel : UInt8) (note : Char) :
    map.toList.filter (·.name = (channel, note)) =
      ((map.get? channel note).map (⟨channel, note, ·⟩)).toList := by
  have once := map.nodup_toList.filter fun binding => decide (binding.name = (channel, note))
  have listed (binding : Binding) :
      binding ∈ map.toList.filter (·.name = (channel, note)) ↔
        ∃ key, map.get? channel note = some key ∧ binding = ⟨channel, note, key⟩ := by
    simp only [List.mem_filter, decide_eq_true_eq, get?_eq_some_iff]
    constructor
    · rintro ⟨member, same⟩
      cases same
      exact ⟨binding.key, member, rfl⟩
    · rintro ⟨key, member, rfl⟩
      exact ⟨member, rfl⟩
  cases bound : map.get? channel note with
  | none => simpa [List.eq_nil_iff_forall_not_mem, bound] using listed
  | some key =>
      refine List.perm_singleton.mp ((List.perm_ext_iff_of_nodup once ?_).mpr ?_)
      · exact List.nodup_singleton _
      · intro binding
        rw [listed, bound]
        simp

/-- A map is all that it answers. -/
theorem eq_of_forall_get?_eq
    (same : ∀ channel note, map.get? channel note = other.get? channel note) : map = other := by
  have members (binding : Binding) : binding ∈ map.toList ↔ binding ∈ other.toList := by
    rw [← get?_eq_some_iff, ← get?_eq_some_iff, same]
  have perm := (List.perm_ext_iff_of_nodup map.nodup_toList other.nodup_toList).mpr members
  refine ext_toList (perm.eq_of_pairwise (fun _ _ _ _ before after => ?_) map.sorted other.sorted)
  exact absurd before (Nat.lt_asymm after)

/-- As many bindings are listed as different names were bound. -/
theorem size_setAll (history : List Binding) :
    (empty.setAll history).2.size = (history.map Binding.name).dedup.length := by
  have names (name : UInt8 × Char) :
      name ∈ (empty.setAll history).2.toList.map Binding.name ↔
        name ∈ (history.map Binding.name).dedup := by
    rcases name with ⟨channel, note⟩
    have known : (∃ key, (empty.setAll history).2.get? channel note = some key) ↔
        ∃ binding ∈ history, binding.name = (channel, note) := by
      rw [← Option.isSome_iff_exists, get?_setAll, get?_empty, Option.none_or, firstKey?,
        Option.isSome_map, List.find?_isSome]
      simp
    rw [List.mem_dedup, List.mem_map, List.mem_map, ← known]
    simp only [get?_eq_some_iff]
    constructor
    · rintro ⟨binding, member, same⟩
      cases same
      exact ⟨binding.key, member⟩
    · rintro ⟨key, member⟩
      exact ⟨_, member, rfl⟩
  have perm := (List.perm_ext_iff_of_nodup (nodup_map_name _) (List.nodup_dedup _)).mpr names
  rw [size, ← perm.length_eq, List.length_map]

/-- What a history of bindings leaves in an empty map.

A binding is made exactly if no earlier one is for its name on its channel.  Every name then
has the key of the first binding for it.  There are as many bindings in the map as different
names in the history; they are listed by channel and code point, each name that has a key once
and with that key, and no other name.  Two histories leave the same map exactly if each name
has the same first key in both. -/
theorem first_binding_stays (history : List Binding) :
    (∀ i : Nat, (empty.setAll history).1[i]? = history[i]?.map fun binding =>
      decide (∀ earlier ∈ history.take i, earlier.name ≠ binding.name)) ∧
    (∀ channel note,
      (empty.setAll history).2.get? channel note = firstKey? history channel note) ∧
    (empty.setAll history).2.size = (history.map Binding.name).dedup.length ∧
    (empty.setAll history).2.toList.Pairwise Binding.Before ∧
    (∀ channel note,
      (empty.setAll history).2.toList.filter (·.name = (channel, note)) =
        ((firstKey? history channel note).map (⟨channel, note, ·⟩)).toList) ∧
    ∀ other : List Binding, (empty.setAll history).2 = (empty.setAll other).2 ↔
      ∀ channel note, firstKey? history channel note = firstKey? other channel note := by
  have answers (history : List Binding) (channel : UInt8) (note : Char) :
      (empty.setAll history).2.get? channel note = firstKey? history channel note := by
    rw [get?_setAll, get?_empty, Option.none_or]
  refine ⟨fun i => ?_, answers history, size_setAll history, pairwise_before _,
    fun channel note => ?_, fun other => ⟨fun same channel note => ?_, fun same => ?_⟩⟩
  · simpa using getElem?_setAll empty history i
  · rw [filter_toList, answers]
  · rw [← answers, ← answers, same]
  · apply eq_of_forall_get?_eq
    intro channel note
    rw [answers, answers, same]

end MidiScore.KeyMap
