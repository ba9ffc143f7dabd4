import MidiScore.Error

/-!
# Property lists

The properties of a note are kept in canonical order, and only lists that make
sense together exist: literals are legal, unique kinds do not repeat, and sharp
excludes flat as accent excludes ghost.  `fault?` looks for the first reason to
refuse a list; `fault?_eq_none_iff` says that it finds none exactly for the
admissible lists, whose definition does not depend on order.
-/

namespace MidiScore

namespace Property

/-- Why the number in a property is refused. -/
def literalFault? : Property → Option Error
  | .value parts => if isNoteValue parts.toNat then none else some (.invalidNoteValue parts)
  | .tuplet division =>
      if division = 3 ∨ division = 5 then none else some (.invalidTuplet division)
  | _ => none

/-- Two properties of one unique kind. -/
def Repeats (first second : Property) : Prop :=
  first.kind = second.kind ∧ first.kind.isUnique

instance (first second : Property) : Decidable (Repeats first second) :=
  inferInstanceAs (Decidable (_ ∧ _))

theorem Repeats.symm {first second : Property} (h : Repeats first second) :
    Repeats second first :=
  ⟨h.1.symm, h.1 ▸ h.2⟩

/-- The first fault in `properties`, read in order after `earlier`: a bad literal,
or a unique kind that was there before. -/
def memberFault? (earlier : List Property) : List Property → Option Error
  | [] => none
  | property :: rest =>
      match property.literalFault? with
      | some error => some error
      | none =>
          if earlier.any (fun other => decide (Repeats other property)) then
            some (.duplicateProperty property.kind)
          else
            memberFault? (property :: earlier) rest

/-- Whether a property of the kind is listed. -/
def hasKind (kind : Kind) (properties : List Property) : Bool :=
  properties.any (·.kind == kind)

/-- The pairs of kinds that exclude each other. -/
def exclusions : List (Kind × Kind) :=
  [(.sharp, .flat), (.accent, .ghost)]

/-- The first exclusion that a list offends. -/
def conflict? (properties : List Property) : Option Error :=
  (exclusions.find? fun pair => hasKind pair.1 properties && hasKind pair.2 properties).map
    fun pair => .conflictingProperties pair.1 pair.2

/-- The reason to refuse a list: a fault of a member comes before a conflict. -/
def fault? (properties : List Property) : Option Error :=
  (memberFault? [] properties).or (conflict? properties)

/-- A list that a note may carry. -/
structure Admissible (properties : List Property) : Prop where
  literals : ∀ property ∈ properties, property.literalFault? = none
  unique : properties.Pairwise fun first second => ¬ Repeats first second
  compatible : ∀ pair ∈ exclusions,
    ¬ (hasKind pair.1 properties = true ∧ hasKind pair.2 properties = true)

theorem memberFault?_eq_none_iff {earlier properties : List Property} :
    memberFault? earlier properties = none ↔
      (∀ property ∈ properties, property.literalFault? = none) ∧
      (∀ other ∈ earlier, ∀ property ∈ properties, ¬ Repeats other property) ∧
      properties.Pairwise fun first second => ¬ Repeats first second := by
  induction properties generalizing earlier with
  | nil => simp [memberFault?]
  | cons property rest ih =>
      rw [memberFault?]
      cases literal : property.literalFault? with
      | some error => simp [literal]
      | none =>
          by_cases repeated : earlier.any (fun other => decide (Repeats other property))
          · have : ∃ other ∈ earlier, Repeats other property := by simpa using repeated
            obtain ⟨other, member, clash⟩ := this
            simp only [repeated, if_true, reduceCtorEq, false_iff]
            intro h
            exact h.2.1 other member property (by simp) clash
          · have fresh : ∀ other ∈ earlier, ¬ Repeats other property := by simpa using repeated
            simp only [repeated, Bool.false_eq_true, if_false, ih, List.mem_cons,
              forall_eq_or_imp, literal, true_and, List.pairwise_cons]
            constructor
            · rintro ⟨literals, ⟨here, before⟩, distinct⟩
              exact ⟨literals, fun other member => ⟨fresh other member, before other member⟩,
                here, distinct⟩
            · rintro ⟨literals, before, here, distinct⟩
              exact ⟨literals, ⟨here, fun other member => (before other member).2⟩, distinct⟩

theorem conflict?_eq_none_iff {properties : List Property} :
    conflict? properties = none ↔
      ∀ pair ∈ exclusions,
        ¬ (hasKind pair.1 properties = true ∧ hasKind pair.2 properties = true) := by
  simp only [conflict?, Option.map_eq_none_iff, List.find?_eq_none, Bool.and_eq_true]

/-- A list is refused exactly when it is not admissible. -/
theorem fault?_eq_none_iff {properties : List Property} :
    fault? properties = none ↔ Admissible properties := by
  rw [fault?, Option.or_eq_none_iff, memberFault?_eq_none_iff, conflict?_eq_none_iff]
  constructor
  · rintro ⟨⟨literals, _, unique⟩, compatible⟩
    exact ⟨literals, unique, compatible⟩
  · rintro ⟨literals, unique, compatible⟩
    exact ⟨⟨literals, by simp, unique⟩, compatible⟩

theorem hasKind_perm {kind : Kind} {first second : List Property} (perm : first.Perm second) :
    hasKind kind first = hasKind kind second := by
  rw [Bool.eq_iff_iff]
  simp only [hasKind, List.any_eq_true, beq_iff_eq]
  constructor
  · rintro ⟨property, member, equal⟩
    exact ⟨property, perm.mem_iff.mp member, equal⟩
  · rintro ⟨property, member, equal⟩
    exact ⟨property, perm.mem_iff.mpr member, equal⟩

/-- Order does not matter for admission. -/
theorem Admissible.perm {first second : List Property} (admissible : Admissible first)
    (perm : first.Perm second) : Admissible second where
  literals property member := admissible.literals property (perm.mem_iff.mpr member)
  unique := perm.pairwise admissible.unique fun distinct clash => distinct clash.symm
  compatible pair member := by
    rw [← hasKind_perm perm, ← hasKind_perm perm]
    exact admissible.compatible pair member

theorem admissible_nil : Admissible [] :=
  ⟨by simp, by simp, by simp [hasKind]⟩

/-- Canonical order of properties. -/
def precedes (first second : Property) : Bool :=
  first.kind.rank ≤ second.kind.rank

/-- Properties in canonical order; those of one kind keep their order. -/
def sort (properties : List Property) : List Property :=
  properties.mergeSort precedes

theorem sort_perm (properties : List Property) : (sort properties).Perm properties :=
  List.mergeSort_perm properties precedes

theorem sort_pairwise (properties : List Property) :
    (sort properties).Pairwise fun first second => precedes first second := by
  apply List.pairwise_mergeSort
  · intro first second third
    simp only [precedes, decide_eq_true_eq]
    exact Nat.le_trans
  · intro first second
    simp only [precedes, Bool.or_eq_true, decide_eq_true_eq]
    exact Nat.le_total _ _

end Property

/-- The properties of a note: admissible, and in canonical order. -/
structure PropertyList where
  toList : List Property
  admissible : Property.Admissible toList
  sorted : toList.Pairwise fun first second => Property.precedes first second

namespace PropertyList

theorem ext_toList {first second : PropertyList} (equal : first.toList = second.toList) :
    first = second := by
  cases first
  cases second
  cases equal
  rfl

instance : DecidableEq PropertyList := fun first second =>
  if equal : first.toList = second.toList then .isTrue (ext_toList equal)
  else .isFalse fun same => equal (congrArg toList same)

instance : Repr PropertyList := ⟨fun list precedence => reprPrec list.toList precedence⟩

/-- No properties: a plain quarter note. -/
def empty : PropertyList := ⟨[], Property.admissible_nil, .nil⟩

instance : Inhabited PropertyList := ⟨empty⟩

/-- Check properties and put them in order. -/
def ofList (properties : List Property) : Except Error PropertyList :=
  match fault : Property.fault? properties with
  | some error => .error error
  | none =>
      .ok {
        toList := Property.sort properties
        admissible :=
          (Property.fault?_eq_none_iff.mp fault).perm (Property.sort_perm properties).symm
        sorted := Property.sort_pairwise properties }

/-- The list with one more property. -/
def insert (list : PropertyList) (property : Property) : Except Error PropertyList :=
  ofList (list.toList ++ [property])

/-- How many properties there are. -/
def size (list : PropertyList) : Nat :=
  list.toList.length

/-- Whether there is no property. -/
def isEmpty (list : PropertyList) : Bool :=
  list.toList.isEmpty

/-- How often a kind occurs, counted in a word of 32 bits. -/
def count (list : PropertyList) (kind : Property.Kind) : UInt32 :=
  (list.toList.countP (·.kind == kind)).toUInt32

/-- Whether a kind occurs. -/
def has (list : PropertyList) (kind : Property.Kind) : Bool :=
  Property.hasKind kind list.toList

/-- The note value that is given. -/
def value? (list : PropertyList) : Option UInt8 :=
  list.toList.findSome? fun
    | .value parts => some parts
    | _ => none

/-- The note value, a quarter when none is given. -/
def value (list : PropertyList) : UInt8 :=
  list.value?.getD 4

/-- The irregular division that is given. -/
def tuplet? (list : PropertyList) : Option UInt8 :=
  list.toList.findSome? fun
    | .tuplet division => some division
    | _ => none

/-- The marks of the properties in canonical order. -/
def render (list : PropertyList) : String :=
  String.join (list.toList.map Property.render)

end PropertyList

end MidiScore
