import Mathlib.Data.List.Pairwise
import MidiScore.Proofs.Note.Sequence

/-!
# Property lists are a canonical form

Which properties may stand together, and the list that they make, does not depend on the
order in which they are given: `sort_eq_of_perm`.  It does not depend either on whether they
are given at once or added one by one, `foldlM_insert_eq_ok_iff`, since what is left of an
admissible list when some members are taken away is admissible.

Only the error for a refused list is about order.  It is that of the first member at fault,
`ofList_eq_error_iff`.
-/

namespace MidiScore

namespace Property

/-! ## Admission -/

/-- The rules for the properties of a note. -/
structure ObeysRules (properties : List Property) : Prop where
  values : ∀ parts, .value parts ∈ properties → ∃ power ≤ 7, parts.toNat = 2 ^ power
  divisions : ∀ division, .tuplet division ∈ properties → division = 3 ∨ division = 5
  once : ∀ kind ∈ [Kind.sharp, .flat, .value, .tuplet, .letRing],
    properties.countP (·.kind = kind) ≤ 1
  accidentals : ¬ (.sharp ∈ properties ∧ .flat ∈ properties)
  dynamics : ¬ (.accent ∈ properties ∧ .ghost ∈ properties)

theorem mem_unique_iff {kind : Kind} :
    kind ∈ [Kind.sharp, .flat, .value, .tuplet, .letRing] ↔ kind.isUnique = true := by
  cases kind <;> decide

theorem forall_literalFault?_iff {properties : List Property} :
    (∀ property ∈ properties, property.literalFault? = none) ↔
      (∀ parts, .value parts ∈ properties → ∃ power ≤ 7, parts.toNat = 2 ^ power) ∧
        ∀ division, .tuplet division ∈ properties → division = 3 ∨ division = 5 := by
  simp only [← isNoteValue_iff]
  constructor
  · intro legal
    refine ⟨fun parts member => ?_, fun division member => ?_⟩
    · simpa [literalFault?] using legal _ member
    · simpa [literalFault?, Decidable.or_iff_not_imp_left] using legal _ member
  · rintro ⟨values, divisions⟩ property member
    cases property with
    | value parts => simp [literalFault?, values parts member]
    | tuplet division => rw [literalFault?, if_pos (divisions division member)]
    | _ => rfl

theorem pairwise_not_repeats_iff {properties : List Property} :
    (properties.Pairwise fun first second => ¬ Repeats first second) ↔
      ∀ kind : Kind, kind.isUnique = true → properties.countP (·.kind = kind) ≤ 1 := by
  induction properties with
  | nil => simp
  | cons property rest ih =>
      rw [List.pairwise_cons, ih]
      constructor
      · rintro ⟨here, later⟩ kind unique
        rw [List.countP_cons]
        by_cases same : property.kind = kind
        · have none : rest.countP (·.kind = kind) = 0 := by
            refine List.countP_eq_zero.mpr fun other member => ?_
            simpa using fun again : other.kind = kind =>
              here other member ⟨same.trans again.symm, same ▸ unique⟩
          simp [none, same]
        · simpa [same] using later kind unique
      · intro all
        constructor
        · rintro other member ⟨same, unique⟩
          have atMostOne := all property.kind unique
          have some : 0 < rest.countP (·.kind = property.kind) :=
            List.countP_pos_iff.mpr ⟨other, member, by simp [same]⟩
          rw [List.countP_cons, if_pos (by simp)] at atMostOne
          omega
        · intro kind unique
          exact Nat.le_trans (List.sublist_cons_self property rest).countP_le (all kind unique)

/-- A property without a number is known by its kind. -/
theorem eq_of_kind_eq {first second : Property} (same : first.kind = second.kind)
    (bare : first.kind ≠ .value ∧ first.kind ≠ .tuplet) : first = second := by
  cases first <;> cases second <;> simp_all [kind]

theorem hasKind_iff_mem {property : Property} {properties : List Property}
    (bare : property.kind ≠ .value ∧ property.kind ≠ .tuplet) :
    hasKind property.kind properties = true ↔ property ∈ properties := by
  simp only [hasKind, List.any_eq_true, beq_iff_eq]
  constructor
  · rintro ⟨other, member, same⟩
    rwa [eq_of_kind_eq same.symm bare]
  · intro member
    exact ⟨property, member, rfl⟩

theorem forall_exclusions_iff {properties : List Property} :
    (∀ pair ∈ exclusions,
      ¬ (hasKind pair.1 properties = true ∧ hasKind pair.2 properties = true)) ↔
      ¬ (.sharp ∈ properties ∧ .flat ∈ properties) ∧
        ¬ (.accent ∈ properties ∧ .ghost ∈ properties) := by
  have sharp := @hasKind_iff_mem .sharp properties (by decide)
  have flat := @hasKind_iff_mem .flat properties (by decide)
  have accent := @hasKind_iff_mem .accent properties (by decide)
  have ghost := @hasKind_iff_mem .ghost properties (by decide)
  simp only [kind] at sharp flat accent ghost
  simp only [exclusions, List.forall_mem_cons, List.not_mem_nil, sharp, flat, accent, ghost,
    false_imp_iff, implies_true, and_true]

/-- The admissible lists are those that obey the rules. -/
theorem admissible_iff_obeysRules {properties : List Property} :
    Admissible properties ↔ ObeysRules properties := by
  constructor
  · rintro ⟨literals, unique, compatible⟩
    have legal := forall_literalFault?_iff.mp literals
    have apart := forall_exclusions_iff.mp compatible
    exact ⟨legal.1, legal.2,
      fun kind listed => pairwise_not_repeats_iff.mp unique kind (mem_unique_iff.mp listed),
      apart.1, apart.2⟩
  · rintro ⟨values, divisions, once, accidentals, dynamics⟩
    exact ⟨forall_literalFault?_iff.mpr ⟨values, divisions⟩,
      pairwise_not_repeats_iff.mpr fun kind unique => once kind (mem_unique_iff.mpr unique),
      forall_exclusions_iff.mpr ⟨accidentals, dynamics⟩⟩

/-! ## Order -/

/-- Members of an admissible list that have one place in the canonical order are equal. -/
theorem Admissible.eq_of_kind_eq {properties : List Property} (admissible : Admissible properties)
    {first second : Property} (isFirst : first ∈ properties) (isSecond : second ∈ properties)
    (same : first.kind = second.kind) : first = second := by
  have ties : properties.Pairwise fun first second =>
      first.kind = second.kind → first = second := by
    refine admissible.unique.imp fun {first second} distinct same => ?_
    refine Property.eq_of_kind_eq same ⟨fun value => ?_, fun tuplet => ?_⟩
    · exact distinct ⟨same, by rw [value]; rfl⟩
    · exact distinct ⟨same, by rw [tuplet]; rfl⟩
  have symmetric : Std.Symm fun first second : Property =>
      first.kind = second.kind → first = second :=
    ⟨fun _ _ equal same => (equal same.symm).symm⟩
  exact ties.forall_of_forall (fun _ _ _ => rfl) isFirst isSecond same

/-- The canonical order of properties does not depend on the order in which they are given. -/
theorem Admissible.sort_eq_of_perm {first second : List Property} (admissible : Admissible first)
    (perm : first.Perm second) : sort first = sort second := by
  have sorted_perm : (sort first).Perm (sort second) :=
    (sort_perm first).trans (perm.trans (sort_perm second).symm)
  refine sorted_perm.eq_of_pairwise ?_ (sort_pairwise first) (sort_pairwise second)
  intro one other isOne isOther before after
  have isOne : one ∈ first := (sort_perm first).mem_iff.mp isOne
  have isOther : other ∈ first := perm.mem_iff.mpr ((sort_perm second).mem_iff.mp isOther)
  have same := Nat.le_antisymm (of_decide_eq_true before) (of_decide_eq_true after)
  exact admissible.eq_of_kind_eq isOne isOther (Kind.rank_injective same)

/-- What is left of an admissible list when members are taken away is admissible. -/
theorem Admissible.sublist {first second : List Property} (admissible : Admissible second)
    (sublist : first.Sublist second) : Admissible first where
  literals property member := admissible.literals property (sublist.subset member)
  unique := admissible.unique.sublist sublist
  compatible pair member both := by
    have kept {kind : Kind} (has : hasKind kind first = true) : hasKind kind second = true := by
      simp only [hasKind, List.any_eq_true] at has ⊢
      rcases has with ⟨property, isMember, same⟩
      exact ⟨property, sublist.subset isMember, same⟩
    exact admissible.compatible pair member ⟨kept both.1, kept both.2⟩

/-! ## The first fault -/

/-- The number of a property is illegal, with the error that says so. -/
inductive Illegal : Property → Error → Prop where
  | value (parts : UInt8) (illegal : ¬ ∃ power ≤ 7, parts.toNat = 2 ^ power) :
      Illegal (.value parts) (.invalidNoteValue parts)
  | tuplet (division : UInt8) (illegal : ¬ (division = 3 ∨ division = 5)) :
      Illegal (.tuplet division) (.invalidTuplet division)

/-- What is wrong with a property that stands behind others: its number, or else that a
unique kind was there before. -/
inductive Fault (earlier : List Property) (property : Property) : Error → Prop where
  | illegal {error : Error} (illegal : Illegal property error) : Fault earlier property error
  | repeated {other : Property} (legal : ∀ error, ¬ Illegal property error)
      (member : other ∈ earlier) (same : other.kind = property.kind)
      (unique : property.kind.isUnique = true) :
      Fault earlier property (.duplicateProperty property.kind)

/-- No member of the list is at fault behind those in front of it. -/
def Sound (properties : List Property) : Prop :=
  ∀ front property rest, properties = front ++ property :: rest →
    ∀ error, ¬ Fault front property error

/-- The error that a list of properties is refused with. -/
inductive Refusal (properties : List Property) : Error → Prop where
  | member {front rest : List Property} {property : Property} {error : Error}
      (split : properties = front ++ property :: rest) (sound : Sound front)
      (fault : Fault front property error) : Refusal properties error
  | accidentals (sound : Sound properties)
      (both : .sharp ∈ properties ∧ .flat ∈ properties) :
      Refusal properties (.conflictingProperties .sharp .flat)
  | dynamics (sound : Sound properties)
      (apart : ¬ (.sharp ∈ properties ∧ .flat ∈ properties))
      (both : .accent ∈ properties ∧ .ghost ∈ properties) :
      Refusal properties (.conflictingProperties .accent .ghost)

theorem literalFault?_eq_some_iff {property : Property} {error : Error} :
    property.literalFault? = some error ↔ Illegal property error := by
  constructor
  · intro found
    cases property with
    | value parts =>
        rw [literalFault?] at found
        split at found
        · contradiction
        · cases found
          exact .value parts (by rwa [← isNoteValue_iff])
    | tuplet division =>
        rw [literalFault?] at found
        split at found
        · contradiction
        · cases found
          exact .tuplet division ‹_›
    | _ => contradiction
  · rintro (⟨parts, illegal⟩ | ⟨division, illegal⟩)
    · rw [← isNoteValue_iff] at illegal
      rw [literalFault?, if_neg illegal]
    · rw [literalFault?, if_neg illegal]

theorem Fault.congr {first second : List Property} {property : Property} {error : Error}
    (fault : Fault first property error) (subset : first ⊆ second) :
    Fault second property error := by
  cases fault with
  | illegal illegal => exact .illegal illegal
  | repeated legal member same unique => exact .repeated legal (subset member) same unique

section

variable {earlier properties : List Property} {property : Property} {error : Error}

theorem memberFault?_cons_of_fault (fault : Fault earlier property error)
    (rest : List Property) : memberFault? earlier (property :: rest) = some error := by
  rw [memberFault?]
  cases fault with
  | illegal illegal => rw [literalFault?_eq_some_iff.mpr illegal]
  | @repeated other legal member same unique =>
      have noLiteral : property.literalFault? = none :=
        Option.eq_none_iff_forall_ne_some.mpr fun error found =>
          legal error (literalFault?_eq_some_iff.mp found)
      have found : earlier.any (fun other => decide (Repeats other property)) = true := by
        simpa using ⟨other, member, same, same ▸ unique⟩
      simp only [noLiteral, found, if_true]

theorem memberFault?_cons_of_sound (sound : ∀ error, ¬ Fault earlier property error)
    (rest : List Property) :
    memberFault? earlier (property :: rest) = memberFault? (property :: earlier) rest := by
  have legal : ∀ error, ¬ Illegal property error := fun error illegal =>
    sound error (.illegal illegal)
  have noLiteral : property.literalFault? = none :=
    Option.eq_none_iff_forall_ne_some.mpr fun error found =>
      legal error (literalFault?_eq_some_iff.mp found)
  have fresh : ¬ earlier.any (fun other => decide (Repeats other property)) = true := by
    simp only [List.any_eq_true, decide_eq_true_eq]
    rintro ⟨other, member, same, unique⟩
    exact sound _ (.repeated legal member same (same ▸ unique))
  simp only [memberFault?, noLiteral]
  rw [if_neg fresh]

/-- The fault that is found is that of the first member at fault. -/
theorem memberFault?_eq_some_iff :
    memberFault? earlier properties = some error ↔
      ∃ front property rest, properties = front ++ property :: rest ∧
        memberFault? earlier front = none ∧ Fault (front ++ earlier) property error := by
  induction properties generalizing earlier with
  | nil => simp [memberFault?]
  | cons first others ih =>
      by_cases atFault : ∃ error, Fault earlier first error
      · rcases atFault with ⟨found, fault⟩
        rw [memberFault?_cons_of_fault fault, Option.some.injEq]
        constructor
        · rintro rfl
          exact ⟨[], first, others, rfl, rfl, fault⟩
        · rintro ⟨front, property, rest, split, before, later⟩
          cases front with
          | nil =>
              cases split
              have one := memberFault?_cons_of_fault fault []
              have other := memberFault?_cons_of_fault later []
              exact Option.some.inj (one.symm.trans other)
          | cons head tail =>
              cases split
              rw [memberFault?_cons_of_fault fault] at before
              contradiction
      · have sound : ∀ error, ¬ Fault earlier first error := not_exists.mp atFault
        rw [memberFault?_cons_of_sound sound, ih]
        constructor
        · rintro ⟨front, property, rest, rfl, before, fault⟩
          refine ⟨first :: front, property, rest, rfl, ?_, fault.congr ?_⟩
          · rw [memberFault?_cons_of_sound sound, before]
          · simp
        · rintro ⟨front, property, rest, split, before, fault⟩
          cases front with
          | nil =>
              cases split
              exact absurd fault (sound _)
          | cons head tail =>
              cases split
              rw [memberFault?_cons_of_sound sound] at before
              exact ⟨tail, property, rest, rfl, before, fault.congr (by simp)⟩

theorem memberFault?_eq_none_iff_sound :
    memberFault? [] properties = none ↔ Sound properties := by
  constructor
  · rintro none front property rest rfl error fault
    cases before : memberFault? [] front with
    | none =>
        have found := memberFault?_eq_some_iff.mpr
          ⟨front, property, rest, rfl, before, by simpa using fault⟩
        rw [none] at found
        contradiction
    | some found =>
        rcases memberFault?_eq_some_iff.mp before with ⟨start, member, left, rfl, sound, fault⟩
        have again : memberFault? [] (start ++ member :: left ++ property :: rest) = some found :=
          memberFault?_eq_some_iff.mpr
            ⟨start, member, left ++ property :: rest, by simp, sound, fault⟩
        rw [none] at again
        contradiction
  · intro sound
    refine Option.eq_none_iff_forall_ne_some.mpr fun error found => ?_
    rcases memberFault?_eq_some_iff.mp found with ⟨front, property, rest, split, _, fault⟩
    exact sound front property rest split error (by simpa using fault)

theorem conflict?_eq_some_iff :
    conflict? properties = some error ↔
      (.sharp ∈ properties ∧ .flat ∈ properties) ∧ error = .conflictingProperties .sharp .flat ∨
      ¬ (.sharp ∈ properties ∧ .flat ∈ properties) ∧
        (.accent ∈ properties ∧ .ghost ∈ properties) ∧
        error = .conflictingProperties .accent .ghost := by
  have sharp := @hasKind_iff_mem .sharp properties (by decide)
  have flat := @hasKind_iff_mem .flat properties (by decide)
  have accent := @hasKind_iff_mem .accent properties (by decide)
  have ghost := @hasKind_iff_mem .ghost properties (by decide)
  simp only [kind] at sharp flat accent ghost
  rw [← sharp, ← flat, ← accent, ← ghost]
  simp only [conflict?, exclusions, List.find?_cons, List.find?_nil, ← Bool.and_eq_true]
  cases hasKind .sharp properties && hasKind .flat properties <;>
    cases hasKind .accent properties && hasKind .ghost properties <;> simp [eq_comm]

/-- The reason to refuse a list is the fault of the first member at fault, and only if there
is none a conflict, that of the accidentals before that of the dynamics. -/
theorem fault?_eq_some_iff :
    fault? properties = some error ↔ Refusal properties error := by
  rw [fault?, Option.or_eq_some_iff, conflict?_eq_some_iff, memberFault?_eq_none_iff_sound,
    memberFault?_eq_some_iff]
  constructor
  · rintro (⟨front, property, rest, split, before, fault⟩ |
      ⟨sound, ⟨both, rfl⟩ | ⟨apart, both, rfl⟩⟩)
    · exact .member split (memberFault?_eq_none_iff_sound.mp before) (by simpa using fault)
    · exact .accidentals sound both
    · exact .dynamics sound apart both
  · rintro (⟨split, sound, fault⟩ | ⟨sound, both⟩ | ⟨sound, apart, both⟩)
    · exact .inl ⟨_, _, _, split, memberFault?_eq_none_iff_sound.mpr sound, by simpa using fault⟩
    · exact .inr ⟨sound, .inl ⟨both, rfl⟩⟩
    · exact .inr ⟨sound, .inr ⟨apart, both, rfl⟩⟩

end

end Property

namespace PropertyList

open Property

variable {properties order : List Property} {list result : PropertyList} {error : Error}

/-! ## Lists made at once -/

theorem ofList_eq_ok_iff :
    ofList properties = .ok list ↔ Admissible properties ∧ list.toList = sort properties := by
  rw [← fault?_eq_none_iff, ofList]
  split
  next refused => simp [refused]
  next accepted =>
    simp only [Except.ok.injEq, accepted, true_and]
    constructor
    · rintro rfl
      rfl
    · intro same
      exact ext_toList same.symm

/-- A list has the properties that it is made of. -/
theorem perm_of_ofList (accepted : ofList properties = .ok list) :
    list.toList.Perm properties := by
  rw [(ofList_eq_ok_iff.mp accepted).2]
  exact sort_perm properties

theorem ofList_eq_error_iff : ofList properties = .error error ↔ Refusal properties error := by
  rw [← fault?_eq_some_iff, ofList]
  split
  next refused => simp [refused]
  next accepted => simp [accepted]

/-- A property list is accepted as it stands. -/
theorem ofList_toList (list : PropertyList) : ofList list.toList = .ok list :=
  ofList_eq_ok_iff.mpr ⟨list.admissible, (List.mergeSort_of_pairwise list.sorted).symm⟩

theorem exists_ofList_eq_ok_iff :
    (∃ list, ofList properties = .ok list) ↔ Admissible properties := by
  constructor
  · rintro ⟨list, accepted⟩
    exact (ofList_eq_ok_iff.mp accepted).1
  · intro admissible
    have perm := (sort_perm properties).symm
    exact ⟨⟨sort properties, admissible.perm perm, sort_pairwise properties⟩,
      ofList_eq_ok_iff.mpr ⟨admissible, rfl⟩⟩

theorem ofList_eq_ok_iff_of_perm (perm : order.Perm properties) :
    ofList order = .ok list ↔ ofList properties = .ok list := by
  have transfer {first second : List Property} (perm : first.Perm second)
      (accepted : ofList first = .ok list) : ofList second = .ok list := by
    rcases ofList_eq_ok_iff.mp accepted with ⟨admissible, made⟩
    exact ofList_eq_ok_iff.mpr
      ⟨admissible.perm perm, made.trans (admissible.sort_eq_of_perm perm)⟩
  exact ⟨transfer perm, transfer perm.symm⟩

/-! ## Lists made step by step -/

/-- Properties added one by one to a list make what they make with it at once. -/
theorem foldlM_insert_eq_ok_iff :
    properties.foldlM insert list = .ok result ↔
      ofList (list.toList ++ properties) = .ok result := by
  induction properties generalizing list with
  | nil =>
      rw [List.append_nil, ofList_toList]
      rfl
  | cons property rest ih =>
      have regroup : list.toList ++ property :: rest = list.toList ++ [property] ++ rest := by simp
      rw [List.foldlM_cons, bind_eq_ok_iff, regroup]
      constructor
      · rintro ⟨next, inserted, later⟩
        have same := perm_of_ofList inserted
        exact (ofList_eq_ok_iff_of_perm (same.append_right rest)).mp (ih.mp later)
      · intro accepted
        have admissible := (ofList_eq_ok_iff.mp accepted).1
        rcases exists_ofList_eq_ok_iff.mpr (admissible.sublist (List.sublist_append_left _ rest))
          with ⟨next, inserted⟩
        have same := perm_of_ofList inserted
        exact ⟨next, inserted,
          ih.mpr ((ofList_eq_ok_iff_of_perm (same.append_right rest)).mpr accepted)⟩

theorem foldlM_insert_empty_eq_ok_iff :
    properties.foldlM insert empty = .ok result ↔ ofList properties = .ok result :=
  foldlM_insert_eq_ok_iff

/-- A property list is a canonical form of the properties it is made of.

It exists exactly for those that obey the rules.  It has the same properties in canonical
order, is the same for every order in which they are given, and is made of itself.  It is also
what they make when they are added one by one in any order, with a list at every step; if there
is no such list, some step is refused in every order.  The error is that of the first property
at fault, and only without one a conflict, that of accidentals before that of dynamics. -/
theorem ofList_canonical (properties : List Property) :
    ((∃ list, ofList properties = .ok list) ↔ ObeysRules properties) ∧
    (∀ list, ofList properties = .ok list →
      list.toList.Perm properties ∧
      (list.toList.Pairwise fun first second => first.kind.rank ≤ second.kind.rank) ∧
      ofList list.toList = .ok list ∧
      ∀ order : List Property, order.Perm properties →
        ofList order = .ok list ∧
        order.foldlM insert empty = .ok list ∧
        ∀ front, front <+: order → ∃ reached, front.foldlM insert empty = .ok reached) ∧
    (∀ error, ofList properties = .error error ↔ Refusal properties error) ∧
    ∀ error, ofList properties = .error error →
      ∀ order : List Property, order.Perm properties →
        ∃ front property rest reached refusal, order = front ++ property :: rest ∧
          front.foldlM insert empty = .ok reached ∧
          reached.insert property = .error refusal := by
  refine ⟨exists_ofList_eq_ok_iff.trans admissible_iff_obeysRules, ?_,
    fun _ => ofList_eq_error_iff, ?_⟩
  · intro list accepted
    rcases ofList_eq_ok_iff.mp accepted with ⟨admissible, made⟩
    refine ⟨made ▸ sort_perm properties, list.sorted.imp of_decide_eq_true, list.ofList_toList, ?_⟩
    intro order perm
    have again := (ofList_eq_ok_iff_of_perm perm).mpr accepted
    refine ⟨again, foldlM_insert_empty_eq_ok_iff.mpr again, ?_⟩
    intro front isPrefix
    simp only [foldlM_insert_empty_eq_ok_iff, exists_ofList_eq_ok_iff]
    exact (admissible.perm perm.symm).sublist isPrefix.sublist
  · intro error refused order perm
    cases added : order.foldlM insert empty with
    | error refusal =>
        rcases foldlM_eq_error_iff.mp added with
          ⟨front, property, rest, reached, split, before, failed⟩
        exact ⟨front, property, rest, reached, refusal, split, before, failed⟩
    | ok list =>
        have accepted := foldlM_insert_empty_eq_ok_iff.mp added
        rw [ofList_eq_ok_iff_of_perm perm, refused] at accepted
        contradiction

end PropertyList

end MidiScore
