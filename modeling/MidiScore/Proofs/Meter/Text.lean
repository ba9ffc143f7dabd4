import Mathlib.Data.List.DropRight
import Mathlib.Data.Nat.Digits.Defs
import MidiScore.Meter.Word
import MidiScore.Proofs.Note.Length

/-!
# How a meter is written

`Numeral` is the grammar of the numbers in a meter, and `Meter.IsWritten` that of a meter: two
numerals with a stroke between them.  The reader finds a meter in a text exactly if the meter is
written there and a score may set it, `Meter.ofText?_eq_some_iff`, and reading into words instead
of numbers makes no difference, `Meter.ofTextWord?_eq`.
-/

namespace MidiScore

/-- The number that decimal digits stand for, each weighted by its power of ten. -/
def Text.weighted (digits : List Char) : Nat :=
  Nat.ofDigits 10 (digits.reverse.map fun c => c.toNat - '0'.toNat)

/-- A number as it may be written: one or more decimal digits, a plus sign before them or not, and
blanks around. -/
structure Numeral where
  leading : List Char
  signed : Bool
  digits : List Char
  trailing : List Char
  blank_leading : ∀ c ∈ leading, Text.isBlank c = true
  digits_ne_nil : digits ≠ []
  decimal_digits : ∀ c ∈ digits, '0' ≤ c ∧ c ≤ '9'
  blank_trailing : ∀ c ∈ trailing, Text.isBlank c = true

namespace Numeral

/-- The sign and the digits. -/
def core (numeral : Numeral) : List Char :=
  if numeral.signed then '+' :: numeral.digits else numeral.digits

/-- All characters of the numeral. -/
def written (numeral : Numeral) : List Char :=
  numeral.leading ++ numeral.core ++ numeral.trailing

/-- The number that is written. -/
def value (numeral : Numeral) : Nat :=
  Text.weighted numeral.digits

end Numeral

namespace Text

/-! ## Blanks at both ends -/

theorem exists_trim (cs : List Char) :
    ∃ leading trailing, (∀ c ∈ leading, isBlank c = true) ∧ (∀ c ∈ trailing, isBlank c = true) ∧
      cs = leading ++ trim cs ++ trailing := by
  refine ⟨cs.takeWhile isBlank, (cs.dropWhile isBlank).rtakeWhile isBlank,
    fun c => List.mem_takeWhile_imp, fun c => List.mem_rtakeWhile_imp, ?_⟩
  have back : trim cs ++ (cs.dropWhile isBlank).rtakeWhile isBlank = cs.dropWhile isBlank :=
    List.rdropWhile_append_rtakeWhile
  rw [List.append_assoc, back, List.takeWhile_append_dropWhile]

/-- Trimming takes away no more than the blanks at the ends. -/
theorem trim_append {leading middle trailing : List Char}
    (blankLeading : ∀ c ∈ leading, isBlank c = true)
    (blankTrailing : ∀ c ∈ trailing, isBlank c = true) (nonempty : middle ≠ [])
    (visible : ∀ c ∈ middle, isBlank c = false) :
    trim (leading ++ middle ++ trailing) = middle := by
  have front : (leading ++ (middle ++ trailing)).dropWhile isBlank = middle ++ trailing := by
    rw [List.dropWhile_append_of_pos blankLeading]
    rcases List.exists_cons_of_ne_nil nonempty with ⟨first, rest, rfl⟩
    exact List.dropWhile_cons_of_neg (by simp [visible first (List.mem_cons_self ..)])
  have back : (middle ++ trailing).reverse.dropWhile isBlank = middle.reverse := by
    rw [List.reverse_append, List.dropWhile_append_of_pos (by simpa using blankTrailing)]
    rcases List.exists_cons_of_ne_nil (mt List.reverse_eq_nil_iff.mp nonempty)
      with ⟨last, rest, reversed⟩
    have member : last ∈ middle := List.mem_reverse.mp (reversed ▸ List.mem_cons_self ..)
    rw [reversed]
    exact List.dropWhile_cons_of_neg (by simp [visible last member])
  rw [trim, List.append_assoc, front, back, List.reverse_reverse]

/-! ## Decimal digits -/

theorem decimal_iff_toNat {c : Char} : ('0' ≤ c ∧ c ≤ '9') ↔ 48 ≤ c.toNat ∧ c.toNat ≤ 57 :=
  Iff.rfl

theorem digitValue?_of_decimal {c : Char} (decimal : '0' ≤ c ∧ c ≤ '9') :
    digitValue? c = some (c.toNat - '0'.toNat) :=
  if_pos decimal

theorem isBlank_of_decimal {c : Char} (decimal : '0' ≤ c ∧ c ≤ '9') : isBlank c = false := by
  have bounds := decimal_iff_toNat.mp decimal
  simp only [isBlank, Bool.or_eq_false_iff, Bool.and_eq_false_iff, decide_eq_false_iff_not,
    beq_eq_false_iff_ne]
  omega

/-- Letters count as digits from the base eleven on only. -/
theorem isDigitOf_ten_iff {c : Char} : isDigitOf 10 c = true ↔ '0' ≤ c ∧ c ≤ '9' := by
  constructor
  · intro digit
    by_contra other
    rw [isDigitOf, digitValue?, if_neg other] at digit
    split_ifs at digit <;> simp at digit
  · intro decimal
    have bounds := decimal_iff_toNat.mp decimal
    have zero : '0'.toNat = 48 := rfl
    rw [isDigitOf, digitValue?_of_decimal decimal, Option.any_some, decide_eq_true_eq, zero]
    omega

theorem digitsValue_concat (base start : Nat) (cs : List Char) (c : Char) :
    digitsValue base start (cs ++ [c]) =
      digitsValue base start cs * base + (digitValue? c).getD 0 := by
  rw [digitsValue, List.foldl_concat]
  rfl

theorem weighted_concat (cs : List Char) (c : Char) :
    weighted (cs ++ [c]) = weighted cs * 10 + (c.toNat - '0'.toNat) := by
  rw [weighted, List.reverse_append, List.reverse_singleton, List.singleton_append, List.map_cons,
    Nat.ofDigits_cons, Nat.add_comm, Nat.mul_comm]
  rfl

/-- Horner's rule gives the weighted sum of the digits. -/
theorem digitsValue_eq_weighted {cs : List Char} (decimal : ∀ c ∈ cs, '0' ≤ c ∧ c ≤ '9') :
    digitsValue 10 0 cs = weighted cs := by
  -- Both take in the last digit last, so the induction is from that end.
  induction cs using List.reverseRecOn with
  | nil => rfl
  | append_singleton front last ih =>
      rw [List.forall_mem_append, List.forall_mem_singleton] at decimal
      rw [digitsValue_concat, weighted_concat, digitValue?_of_decimal decimal.2, ih decimal.1,
        Option.getD_some]

theorem natural?_ten_eq_some_iff {cs : List Char} {value : Nat} :
    natural? 10 cs = some value ↔
      cs ≠ [] ∧ (∀ c ∈ cs, '0' ≤ c ∧ c ≤ '9') ∧ value = weighted cs := by
  have digits : (!cs.isEmpty && cs.all (isDigitOf 10)) = true ↔
      cs ≠ [] ∧ ∀ c ∈ cs, '0' ≤ c ∧ c ≤ '9' := by
    simp [isDigitOf_ten_iff]
  rw [natural?, Option.ite_none_right_eq_some, digits, and_assoc]
  apply and_congr_right
  intro _
  apply and_congr_right
  intro decimal
  rw [Option.some_inj, digitsValue_eq_weighted decimal, eq_comm]

end Text

namespace Numeral

theorem isBlank_of_mem_core {numeral : Numeral} :
    ∀ c ∈ numeral.core, Text.isBlank c = false := by
  intro c member
  have digit : c ∈ numeral.digits → Text.isBlank c = false := fun member =>
    Text.isBlank_of_decimal (numeral.decimal_digits c member)
  rw [core] at member
  split at member
  · rcases List.mem_cons.mp member with rfl | member
    · rfl
    · exact digit member
  · exact digit member

theorem core_ne_nil (numeral : Numeral) : numeral.core ≠ [] := by
  rw [core]
  split
  · exact List.cons_ne_nil _ _
  · exact numeral.digits_ne_nil

theorem trim_written (numeral : Numeral) : Text.trim numeral.written = numeral.core :=
  Text.trim_append numeral.blank_leading numeral.blank_trailing numeral.core_ne_nil
    isBlank_of_mem_core

theorem natural?_digits (numeral : Numeral) :
    Text.natural? 10 numeral.digits = some numeral.value :=
  Text.natural?_ten_eq_some_iff.mpr ⟨numeral.digits_ne_nil, numeral.decimal_digits, rfl⟩

/-- Digits between blanks, with or without a sign, are a numeral. -/
theorem exists_of_trim {cs digits : List Char} (signed : Bool) {value : Nat}
    (trimmed : Text.trim cs = if signed then '+' :: digits else digits)
    (read : Text.natural? 10 digits = some value) :
    ∃ numeral : Numeral, numeral.written = cs ∧ numeral.value = value := by
  rcases Text.exists_trim cs with ⟨leading, trailing, blankLeading, blankTrailing, split⟩
  rcases Text.natural?_ten_eq_some_iff.mp read with ⟨nonempty, decimal, value_eq⟩
  refine ⟨⟨leading, signed, digits, trailing, blankLeading, nonempty, decimal, blankTrailing⟩,
    ?_, value_eq.symm⟩
  rw [split, trimmed]
  rfl

end Numeral

namespace Meter

/-- Cut at its first stroke, the text is two numerals, for the two numbers of the meter. -/
def IsWritten (meter : Meter) (text : String) : Prop :=
  ∃ before after : Numeral,
    text.toList = before.written ++ '/' :: after.written ∧ '/' ∉ before.written ∧
      before.value = meter.numerator.toNat ∧ after.value = meter.denominator.toNat

/-- A side of the stroke is read exactly if it is a numeral. -/
theorem part?_eq_some_iff {cs : List Char} {value : Nat} :
    part? cs = some value ↔ ∃ numeral : Numeral, numeral.written = cs ∧ numeral.value = value := by
  constructor
  · intro read
    rw [part?] at read
    split at read
    · rename_i digits trimmed
      exact Numeral.exists_of_trim true trimmed read
    · exact Numeral.exists_of_trim false rfl read
  · rintro ⟨numeral, rfl, rfl⟩
    have digits := numeral.natural?_digits
    rw [part?, numeral.trim_written]
    cases sign : numeral.signed with
    | true =>
        rw [Numeral.core, if_pos sign]
        exact digits
    | false =>
        rw [Numeral.core, if_neg (by simp [sign])]
        -- The first digit is no sign that would be taken off.
        split
        · rename_i rest plus
          have decimal := numeral.decimal_digits '+' (plus ▸ List.mem_cons_self ..)
          exact absurd decimal (by decide)
        · exact digits

/-- A text is cut in front of its first stroke. -/
theorem cut?_eq_some_iff {cs before after : List Char} :
    cut? cs = some (before, after) ↔ cs = before ++ '/' :: after ∧ '/' ∉ before := by
  constructor
  · intro cut
    have whole : cs.takeWhile (· != '/') ++ cs.dropWhile (· != '/') = cs :=
      List.takeWhile_append_dropWhile
    have first := List.head?_dropWhile_not (· != '/') cs
    rw [cut?] at cut
    split at cut
    · rename_i stroke _ dropped
      cases cut
      rw [dropped] at whole first
      obtain rfl : stroke = '/' := bne_eq_false_iff_eq.mp first
      exact ⟨whole.symm, fun member => by simpa using List.mem_takeWhile_imp member⟩
    · contradiction
  · rintro ⟨rfl, absent⟩
    have others : ∀ c ∈ before, (c != '/') = true := fun c member =>
      bne_iff_ne.mpr fun same => absent (same ▸ member)
    rw [cut?, List.dropWhile_append_of_pos others, List.takeWhile_append_of_pos others]
    simp

/-- A score may set 1 to 128 beats of a power of two from 1 to 128. -/
theorem isValid_iff {meter : Meter} :
    meter.isValid = true ↔ 1 ≤ meter.numerator.toNat ∧ meter.numerator.toNat ≤ 128 ∧
      ∃ power ≤ 7, meter.denominator.toNat = 2 ^ power := by
  rw [isValid, Bool.and_eq_true, Bool.and_eq_true, decide_eq_true_eq, decide_eq_true_eq,
    isNoteValue_iff, and_assoc, maxBeats]

/-- Numbers in bounds fit the bytes of a meter. -/
theorem narrow_eq_some_iff {numerator denominator : Nat} {meter : Meter} :
    (if 1 ≤ numerator ∧ numerator ≤ maxBeats ∧ isNoteValue denominator = true then
      some (⟨numerator.toUInt8, denominator.toUInt8⟩ : Meter) else none) = some meter ↔
      numerator = meter.numerator.toNat ∧ denominator = meter.denominator.toNat ∧
        meter.isValid = true := by
  rw [Option.ite_none_right_eq_some, isNoteValue_iff, isValid_iff, maxBeats]
  constructor
  · rintro ⟨⟨positive, bounded, power, few, rfl⟩, made⟩
    have small : 2 ^ power ≤ 2 ^ 7 := Nat.pow_le_pow_right (by decide) few
    have numerator_eq : numerator.toUInt8.toNat = numerator := Nat.mod_eq_of_lt (by omega)
    have denominator_eq : (2 ^ power).toUInt8.toNat = 2 ^ power := Nat.mod_eq_of_lt (by omega)
    cases made
    rw [numerator_eq, denominator_eq]
    exact ⟨rfl, rfl, positive, bounded, power, few, rfl⟩
  · rintro ⟨rfl, rfl, legal⟩
    exact ⟨legal, by simp⟩

theorem ofText?_eq_some_iff_parts {text : String} {meter : Meter} :
    ofText? text = some meter ↔
      ∃ before after, cut? text.toList = some (before, after) ∧
        part? before = some meter.numerator.toNat ∧
        part? after = some meter.denominator.toNat ∧ meter.isValid = true := by
  simp only [ofText?, Option.bind_eq_bind, Option.bind_eq_some_iff, narrow_eq_some_iff,
    Prod.exists]
  constructor
  · rintro ⟨before, after, cut, _, numerator, _, denominator, rfl, rfl, legal⟩
    exact ⟨before, after, cut, numerator, denominator, legal⟩
  · rintro ⟨before, after, cut, numerator, denominator, legal⟩
    exact ⟨before, after, cut, _, numerator, _, denominator, rfl, rfl, legal⟩

/-- A text is read as a meter exactly if the two numbers of the meter are written in it and a
score may set it. -/
theorem ofText?_eq_some_iff {text : String} {meter : Meter} :
    ofText? text = some meter ↔ meter.IsWritten text ∧ meter.isValid = true := by
  simp only [ofText?_eq_some_iff_parts, cut?_eq_some_iff, part?_eq_some_iff, IsWritten]
  constructor
  · rintro ⟨_, _, ⟨cut, absent⟩, ⟨before, rfl, numerator⟩, ⟨after, rfl, denominator⟩, legal⟩
    exact ⟨⟨before, after, cut, absent, numerator, denominator⟩, legal⟩
  · rintro ⟨⟨before, after, cut, absent, numerator, denominator⟩, legal⟩
    exact ⟨_, _, ⟨cut, absent⟩, ⟨before, rfl, numerator⟩, ⟨after, rfl, denominator⟩, legal⟩

end Meter

/-! ## Reading into words -/

namespace Text

theorem le_digitsValue (start : Nat) (cs : List Char) : start ≤ digitsValue 10 start cs := by
  induction cs generalizing start with
  | nil => exact Nat.le_refl start
  | cons c rest ih =>
      have later := ih (start * 10 + (digitValue? c).getD 0)
      rw [digitsValue, List.foldl_cons]
      exact Nat.le_trans (by omega) later

theorem extend?_eq_some_iff {word next : UInt32} {c : Char} :
    extend? word c = some next ↔
      isDigitOf 10 c = true ∧ next.toNat = word.toNat * 10 + (digitValue? c).getD 0 := by
  simp only [extend?, Option.bind_eq_bind, Option.bind_eq_some_iff, word?_eq_some_iff,
    Option.filter_eq_some_iff, isDigitOf, Option.any_eq_true, decide_eq_true_eq]
  constructor
  · rintro ⟨shifted, shifted_eq, digit, ⟨found, small⟩, next_eq⟩
    exact ⟨⟨digit, found, small⟩, by rw [next_eq, shifted_eq, found, Option.getD_some]⟩
  · rintro ⟨⟨digit, found, small⟩, next_eq⟩
    rw [found, Option.getD_some] at next_eq
    have bounded := next.toNat_lt
    rcases @exists_word? (word.toNat * 10) (by omega) with ⟨shifted, _, shifted_eq⟩
    exact ⟨shifted, shifted_eq, digit, ⟨found, small⟩, by rw [next_eq, shifted_eq]⟩

/-- The digits are read into a word exactly if the whole number fits. -/
theorem foldlM_extend?_eq_some_iff {start word : UInt32} {cs : List Char} :
    cs.foldlM extend? start = some word ↔
      (∀ c ∈ cs, isDigitOf 10 c = true) ∧ word.toNat = digitsValue 10 start.toNat cs := by
  induction cs generalizing start with
  | nil =>
      have same : some start = some word ↔ word.toNat = start.toNat := by
        rw [Option.some_inj, UInt32.toNat_inj, eq_comm]
      exact same.trans (iff_and_self.mpr fun _ => List.forall_mem_nil _)
  | cons c rest ih =>
      rw [List.foldlM_cons, Option.bind_eq_bind, Option.bind_eq_some_iff, List.forall_mem_cons]
      simp only [extend?_eq_some_iff, ih]
      constructor
      · rintro ⟨middle, ⟨digit, middle_eq⟩, digits, word_eq⟩
        exact ⟨⟨digit, digits⟩, by rw [word_eq, middle_eq]; rfl⟩
      · rintro ⟨⟨digit, digits⟩, word_eq⟩
        have middle_le : start.toNat * 10 + (digitValue? c).getD 0 ≤ word.toNat :=
          word_eq ▸ le_digitsValue _ rest
        -- What the first digit gives fits, since more digits never make it smaller.
        have bounded := word.toNat_lt
        rcases @exists_word? (start.toNat * 10 + (digitValue? c).getD 0) (by omega)
          with ⟨middle, _, middle_eq⟩
        exact ⟨middle, ⟨digit, middle_eq⟩, digits, by rw [word_eq, middle_eq]; rfl⟩

theorem decimalWord?_eq_some_iff {cs : List Char} {word : UInt32} :
    decimalWord? cs = some word ↔ natural? 10 cs = some word.toNat := by
  rw [decimalWord?, natural?]
  cases cs with
  | nil => simp
  | cons c rest =>
      rw [List.isEmpty_cons, if_neg Bool.false_ne_true, foldlM_extend?_eq_some_iff,
        Option.ite_none_right_eq_some, Option.some_inj, eq_comm]
      simp only [Bool.not_false, Bool.true_and, List.all_eq_true]
      rfl

end Text

namespace Meter

/-- A side is read by all readers that read the same digits. -/
theorem partBy_eq_some_iff {α β : Type} {first : List Char → Option α}
    {second : List Char → Option β} {value : α} {other : β}
    (same : ∀ digits, first digits = some value ↔ second digits = some other) (cs : List Char) :
    partBy first cs = some value ↔ partBy second cs = some other := by
  unfold partBy
  split <;> exact same _

theorem partBy_decimalWord? {cs : List Char} {word : UInt32} :
    partBy Text.decimalWord? cs = some word ↔ part? cs = some word.toNat :=
  partBy_eq_some_iff (fun _ => Text.decimalWord?_eq_some_iff) cs

theorem ofTextWord?_eq_some_iff_parts {text : String} {meter : Meter} :
    ofTextWord? text = some meter ↔
      ∃ before after, cut? text.toList = some (before, after) ∧
        part? before = some meter.numerator.toNat ∧
        part? after = some meter.denominator.toNat ∧ meter.isValid = true := by
  have narrow (numerator denominator : UInt32) :
      (if 1 ≤ numerator ∧ numerator.toNat ≤ maxBeats ∧ isNoteValue denominator.toNat = true then
        some (⟨numerator.toUInt8, denominator.toUInt8⟩ : Meter) else none) = some meter ↔
        numerator.toNat = meter.numerator.toNat ∧ denominator.toNat = meter.denominator.toNat ∧
          meter.isValid = true :=
    narrow_eq_some_iff
  simp only [ofTextWord?, Option.bind_eq_bind, Option.bind_eq_some_iff, partBy_decimalWord?,
    narrow, Prod.exists]
  constructor
  · rintro ⟨before, after, cut, _, numerator, _, denominator, numerator_eq, denominator_eq, legal⟩
    exact ⟨before, after, cut, numerator_eq ▸ numerator, denominator_eq ▸ denominator, legal⟩
  · rintro ⟨before, after, cut, numerator, denominator, legal⟩
    have numerator_eq : meter.numerator.toUInt32.toNat = meter.numerator.toNat :=
      UInt8.toNat_toUInt32 _
    have denominator_eq : meter.denominator.toUInt32.toNat = meter.denominator.toNat :=
      UInt8.toNat_toUInt32 _
    exact ⟨before, after, cut, _, numerator_eq ▸ numerator, _, denominator_eq ▸ denominator,
      numerator_eq, denominator_eq, legal⟩

/-- Digits that outgrow a word spell a number that is out of bounds anyway. -/
theorem ofTextWord?_eq (text : String) : ofTextWord? text = ofText? text :=
  Option.ext fun _ => ofTextWord?_eq_some_iff_parts.trans ofText?_eq_some_iff_parts.symm

example : ofTextWord? "4294967299/4" = none := by decide +kernel

end Meter

end MidiScore
