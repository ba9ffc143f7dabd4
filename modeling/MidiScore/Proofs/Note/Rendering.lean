import MidiScore.Note.Reader
import MidiScore.Proofs.Meter.Text
import MidiScore.Proofs.Note.Canonical

/-!
# The text of a note is unambiguous

A mark could be confused with what follows only where a number is followed by digits.  In
canonical order that does not happen: behind a number there is no note value, as it comes
before an irregular division and is given once.  So the reader finds every property of a list
in its marks, `readAll_marks`, and notes with the same text are equal.
-/

namespace MidiScore

namespace Text

theorem digitsValue_eq_ofDigitChars {cs : List Char} (decimal : ∀ c ∈ cs, '0' ≤ c ∧ c ≤ '9')
    (start : Nat) : digitsValue 10 start cs = Nat.ofDigitChars 10 cs start := by
  induction cs generalizing start with
  | nil => rfl
  | cons c rest ih =>
      rcases List.forall_mem_cons.mp decimal with ⟨here, later⟩
      rw [Nat.ofDigitChars_cons, ← ih later, digitsValue, List.foldl_cons,
        digitValue?_of_decimal here, Option.getD_some, Nat.mul_comm]
      rfl

theorem isDigitOf_of_mem_toDigits {n : Nat} {c : Char} (member : c ∈ Nat.toDigits 10 n) :
    isDigitOf 10 c = true := by
  have digit := Nat.isDigit_of_mem_toDigits (by decide) (by decide) member
  rw [isDigitOf_ten_iff]
  simpa [Char.isDigit, Char.le_def] using digit

/-- The digits of a number spell it out. -/
theorem natural?_toDigits (n : Nat) : natural? 10 (Nat.toDigits 10 n) = some n := by
  have digits : ∀ c ∈ Nat.toDigits 10 n, isDigitOf 10 c = true := fun _ =>
    isDigitOf_of_mem_toDigits
  have decimal : ∀ c ∈ Nat.toDigits 10 n, '0' ≤ c ∧ c ≤ '9' := fun c member =>
    isDigitOf_ten_iff.mp (digits c member)
  have nonempty : (Nat.toDigits 10 n).isEmpty = false :=
    List.isEmpty_eq_false_iff.mpr Nat.toDigits_ne_nil
  rw [natural?, nonempty, List.all_eq_true.mpr digits, Bool.not_false, Bool.and_self, if_pos rfl,
    digitsValue_eq_ofDigitChars decimal, Nat.ofDigitChars_ten_toDigits]

end Text

namespace Property

variable {property : Property} {properties : List Property} {rest : List Char}

/-- The marks of some properties in a row. -/
def marks (properties : List Property) : List Char :=
  properties.flatMap fun property => property.render.toList

/-- A text does not begin with a digit. -/
def EndsNumber (text : List Char) : Prop :=
  ∀ c ∈ text.head?, Text.isDigitOf 10 c = false

theorem readNumber_append (number : UInt8) (ends : EndsNumber rest) :
    readNumber (Nat.toDigits 10 number.toNat ++ rest) = some (number, rest) := by
  have digits : ∀ c ∈ Nat.toDigits 10 number.toNat, Text.isDigitOf 10 c = true := fun _ =>
    Text.isDigitOf_of_mem_toDigits
  have front : rest.takeWhile (Text.isDigitOf 10) = [] ∧
      rest.dropWhile (Text.isDigitOf 10) = rest := by
    cases rest with
    | nil => exact ⟨rfl, rfl⟩
    | cons first others =>
        have stop : ¬ Text.isDigitOf 10 first = true := by simp [ends first rfl]
        exact ⟨List.takeWhile_cons_of_neg stop, List.dropWhile_cons_of_neg stop⟩
  rw [readNumber, List.takeWhile_append_of_pos digits, List.dropWhile_append_of_pos digits,
    front.1, front.2, List.append_nil, Text.natural?_toDigits]
  have small : number.toNat < 256 := number.toNat_lt
  simp [small]

theorem readAll_cons_of_readFront {first : Char} {others : List Char}
    (found : readFront first others = some (property, rest)) :
    readAll (first :: others) = (readAll rest).map (property :: ·) := by
  rw [readAll]
  split
  next missing =>
    rw [found] at missing
    contradiction
  next again =>
    rw [found] at again
    cases again
    rfl

/-- A property is read from its mark, whatever follows it but further digits behind a number. -/
theorem readAll_append
    (ends : property.kind = .value ∨ property.kind = .tuplet → EndsNumber rest) :
    readAll (property.render.toList ++ rest) = (readAll rest).map (property :: ·) := by
  cases property with
  | value parts =>
      have ends := ends (.inl rfl)
      have written : (Property.value parts).render.toList = Nat.toDigits 10 parts.toNat := by
        rw [render, Nat.toString_eq_ofList_toDigits, String.toList_ofList]
      rcases List.exists_cons_of_ne_nil (@Nat.toDigits_ne_nil parts.toNat 10)
        with ⟨first, others, split⟩
      have digit : Text.isDigitOf 10 first = true :=
        Text.isDigitOf_of_mem_toDigits (split ▸ List.mem_cons_self)
      have noStroke : first ≠ '/' := by
        rintro rfl
        contradiction
      rw [written, split, List.cons_append]
      apply readAll_cons_of_readFront
      rw [readFront, if_neg noStroke, if_pos digit, ← List.cons_append, ← split,
        readNumber_append parts ends]
      rfl
  | tuplet division =>
      have ends := ends (.inr rfl)
      have written : (Property.tuplet division).render.toList =
          '/' :: Nat.toDigits 10 division.toNat := by
        simp [render]
      rw [written, List.cons_append]
      apply readAll_cons_of_readFront
      rw [readFront, if_pos rfl, readNumber_append division ends]
      rfl
  | _ => exact readAll_cons_of_readFront rfl

theorem endsNumber_marks (noValue : ∀ property ∈ properties, property.kind ≠ .value) :
    EndsNumber (marks properties) := by
  cases properties with
  | nil => exact nofun
  | cons property others =>
      have other := noValue property List.mem_cons_self
      cases property with
      | value parts => exact absurd rfl other
      | tuplet division =>
          rintro c first
          rw [marks, List.flatMap_cons, render, String.toList_append] at first
          cases first
          rfl
      | _ =>
          rintro c first
          cases first
          rfl

/-- In canonical order every property is found in the marks. -/
theorem readAll_marks
    (sorted : properties.Pairwise fun first second => precedes first second)
    (unique : properties.Pairwise fun first second => ¬ Repeats first second) :
    readAll (marks properties) = some properties := by
  induction properties with
  | nil => rw [marks, List.flatMap_nil, readAll]
  | cons property others ih =>
      rcases List.pairwise_cons.mp sorted with ⟨before, sortedOthers⟩
      rcases List.pairwise_cons.mp unique with ⟨once, uniqueOthers⟩
      rw [marks, List.flatMap_cons, readAll_append, ← marks, ih sortedOthers uniqueOthers]
      · rfl
      · intro numbered
        refine endsNumber_marks fun later member same => ?_
        have rank := of_decide_eq_true (before later member)
        have alone := once later member
        rcases numbered with number | number
        · exact alone ⟨number.trans same.symm, by rw [number]; rfl⟩
        · rw [number, same] at rank
          contradiction

end Property

namespace PropertyList

theorem toList_render (list : PropertyList) : list.render.toList = Property.marks list.toList := by
  rw [render, String.toList_join, List.flatMap_map]
  rfl

end PropertyList

namespace Note

theorem toList_render (note : Note) :
    note.render.toList = note.name :: Property.marks note.properties.toList := by
  rw [render, String.toList_append, Char.toString_eq_singleton, String.toList_singleton,
    PropertyList.toList_render]
  rfl

/-- A note is read back from its text. -/
theorem ofText?_render (note : Note) : ofText? note.render = some note := by
  have read := Property.readAll_marks note.properties.sorted note.properties.admissible.unique
  rw [ofText?, toList_render]
  simp only [read, Option.bind_some, ofList, PropertyList.ofList_toList]
  rfl

theorem ofList_eq_ok_iff {name : Char} {properties : List Property} {note : Note} :
    ofList name properties = .ok note ↔
      note.name = name ∧ PropertyList.ofList properties = .ok note.properties := by
  rw [ofList, map_eq_ok_iff]
  constructor
  · rintro ⟨list, accepted, rfl⟩
    exact ⟨rfl, accepted⟩
  · rintro ⟨rfl, accepted⟩
    exact ⟨_, accepted, rfl⟩

/-- Notes have the same text exactly if they are equal, that is, if their names are the same
and they are made of the same properties in any order.  From the text of a note come back its
name and the properties it is made of. -/
theorem render_unambiguous {first second : Note} {name other : Char}
    {properties others : List Property} (made : ofList name properties = .ok first)
    (madeOther : ofList other others = .ok second) :
    (first.render = second.render ↔ first = second) ∧
    (first = second ↔ name = other ∧ properties.Perm others) ∧
    ∃ note, ofText? first.render = some note ∧ note.name = name ∧
      note.properties.toList.Perm properties := by
  rcases ofList_eq_ok_iff.mp made with ⟨rfl, accepted⟩
  rcases ofList_eq_ok_iff.mp madeOther with ⟨rfl, acceptedOther⟩
  have perm := PropertyList.perm_of_ofList accepted
  have permOther := PropertyList.perm_of_ofList acceptedOther
  refine ⟨⟨fun same => ?_, congrArg render⟩, ⟨?_, ?_⟩, first, ofText?_render first, rfl, perm⟩
  · have read := ofText?_render first
    rw [same, ofText?_render second] at read
    exact (Option.some.inj read).symm
  · rintro rfl
    exact ⟨rfl, perm.symm.trans permOther⟩
  · rintro ⟨sameName, samePerm⟩
    have again := (PropertyList.ofList_eq_ok_iff_of_perm samePerm).mpr acceptedOther
    rw [accepted] at again
    cases first
    cases second
    cases sameName
    cases again
    rfl

/-- A digit may be a name.  Behind it stand a sixteenth, its dot, a triplet and a sign that lets
the note ring, in whatever order they are given. -/
theorem render_unambiguous_digit_name :
    let properties : List Property := [.letRing, .dot, .tuplet 3, .value 16]
    let others : List Property := [.value 16, .dot, .tuplet 3, .letRing]
    ∃ first second, ofList '1' properties = .ok first ∧ ofList '1' others = .ok second ∧
      first.render = "116./3*" ∧ first = second ∧
      ∃ note, ofText? "116./3*" = some note ∧ note.name = '1' ∧
        note.properties.toList.Perm properties := by
  intro properties others
  have perm : properties.Perm others := by decide
  rcases PropertyList.exists_ofList_eq_ok_iff.mpr
    (Property.fault?_eq_none_iff.mp (by decide : Property.fault? others = none))
    with ⟨list, accepted⟩
  have madeOther : ofList '1' others = .ok ⟨'1', list⟩ := ofList_eq_ok_iff.mpr ⟨rfl, accepted⟩
  have made : ofList '1' properties = .ok ⟨'1', list⟩ :=
    ofList_eq_ok_iff.mpr ⟨rfl, (PropertyList.ofList_eq_ok_iff_of_perm perm).mpr accepted⟩
  have ⟨_, same, recovered⟩ := render_unambiguous made madeOther
  have sorted : Property.sort others = others := List.mergeSort_of_pairwise (by decide)
  have text : Note.render ⟨'1', list⟩ = "116./3*" := by
    rw [← String.toList_inj, toList_render, (PropertyList.ofList_eq_ok_iff.mp accepted).2, sorted]
    rfl
  exact ⟨_, _, made, madeOther, text, same.mpr ⟨rfl, perm⟩, text ▸ recovered⟩

end Note

end MidiScore
