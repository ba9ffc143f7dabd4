import Mathlib.Data.List.Pairwise
import MidiScore.KeyMap

/-!
# Laws of key maps

A key map is a table from note names on channels to keys: what it answers is what is listed,
`get?_eq_some_iff`, and a name is bound at most once.  A binding changes the answer for its own
name on its own channel and for nothing else, `get?_bind?`, and is refused exactly where there
is an answer already.
-/

namespace MidiScore.KeyMap

variable {map next : KeyMap} {channel : UInt8} {note : Char} {key : UInt8}

@[simp]
theorem get?_empty (channel : UInt8) (note : Char) : empty.get? channel note = none := rfl

theorem eq_of_place_eq {first second : Binding} (isFirst : first ∈ map.toList)
    (isSecond : second ∈ map.toList) (same : first.place = second.place) : first = second := by
  have ties : map.toList.Pairwise fun first second =>
      first.place = second.place → first = second :=
    map.sorted.imp fun before same => absurd same (Nat.ne_of_lt before)
  have symmetric : Std.Symm fun first second : Binding =>
      first.place = second.place → first = second :=
    ⟨fun _ _ equal same => (equal same.symm).symm⟩
  exact ties.forall_of_forall (fun _ _ _ => rfl) isFirst isSecond same

/-- A map answers with the key that is listed for the name on the channel. -/
theorem get?_eq_some_iff :
    map.get? channel note = some key ↔ ⟨channel, note, key⟩ ∈ map.toList := by
  rw [get?, Option.map_eq_some_iff]
  constructor
  · rintro ⟨binding, found, rfl⟩
    have here : binding.place = place channel note := by
      simpa using List.find?_some found
    rcases place_inj.mp here with ⟨rfl, rfl⟩
    exact List.mem_of_find?_eq_some found
  · intro member
    have exists_found : (map.toList.find? (·.place == place channel note)).isSome = true :=
      List.find?_isSome.mpr ⟨_, member, by simp [Binding.place]⟩
    rcases Option.isSome_iff_exists.mp exists_found with ⟨binding, found⟩
    have here : binding.place = place channel note := by
      simpa using List.find?_some found
    have same := eq_of_place_eq (List.mem_of_find?_eq_some found) member here
    exact ⟨binding, found, congrArg Binding.key same⟩

theorem get?_eq_none_iff :
    map.get? channel note = none ↔ ∀ other ∈ map.toList, other.place ≠ place channel note := by
  simp [get?]

/-- A name is bound only where it has no key. -/
theorem bind?_eq_none_iff :
    map.bind? channel note key = none ↔ (map.get? channel note).isSome = true := by
  rw [← Option.ne_none_iff_isSome, ne_eq, get?_eq_none_iff, bind?]
  split
  · rename_i fresh
    exact iff_of_false nofun (not_not_intro fresh)
  · rename_i listed
    exact iff_of_true rfl listed

/-- A binding adds itself to what is listed. -/
theorem mem_of_bind? (bound : map.bind? channel note key = some next) {other : Binding} :
    other ∈ next.toList ↔ other = ⟨channel, note, key⟩ ∨ other ∈ map.toList := by
  rw [bind?] at bound
  split at bound
  · cases bound
    exact mem_insertSorted
  · contradiction

/-- A binding is found under its own name on its own channel, and changes nothing else. -/
theorem get?_bind? (bound : map.bind? channel note key = some next) (other : UInt8)
    (name : Char) :
    next.get? other name =
      if other = channel ∧ name = note then some key else map.get? other name := by
  apply Option.ext
  intro found
  rw [get?_eq_some_iff, mem_of_bind? bound]
  split
  · rename_i here
    rcases here with ⟨rfl, rfl⟩
    have free : map.get? other name = none := by
      rw [← Option.not_isSome_iff_eq_none]
      intro known
      rw [bind?_eq_none_iff.mpr known] at bound
      contradiction
    have notListed : ⟨other, name, found⟩ ∉ map.toList := by
      rw [← get?_eq_some_iff, free]
      simp
    simp [notListed, eq_comm]
  · rename_i elsewhere
    have different : (⟨other, name, found⟩ : Binding) ≠ ⟨channel, note, key⟩ := by
      rintro ⟨⟩
      exact elsewhere ⟨rfl, rfl⟩
    simp [different, get?_eq_some_iff]

/-- Where a name is free, the map with its binding answers with it, and with nothing else than
before for other names. -/
theorem get?_getD_bind? (free : map.get? channel note = none) (key other : UInt8)
    (name : Char) :
    ((map.bind? channel note key).getD map).get? other name =
      if other = channel ∧ name = note then some key else map.get? other name := by
  cases bound : map.bind? channel note key with
  | none =>
      rw [bind?_eq_none_iff, free] at bound
      contradiction
  | some next => exact get?_bind? bound other name

end MidiScore.KeyMap
