import Mathlib.Data.List.Forall2
import MidiScore.Datum.Fields

/-!
# What readers give

A reader gives back what was written for it, without following a reference.  Of any other
reading only its value matters here: `Gives` says that it has one with some allowance, which
goes through a program step by step, and a reading never gives two values, `Steady`.
-/

namespace MidiScore.Datum

/-! ## Values that were written -/

theorem readText_text (content : String) : readText (.text content) = pure content :=
  rfl

theorem readChar_text (c : Char) : readChar (.text c.toString) = pure c := by
  rw [readChar, readText_text, pure_bind, Char.toString_eq_singleton, String.toList_singleton]

theorem readNat_integer {limit n : Nat} (bounded : n ≤ limit) :
    readNat limit (.integer n) = pure n := by
  have found : (Datum.integer n).natural? = some n := by simp [natural?]
  have reached : reach (.integer n) = pure (.integer n) := rfl
  rw [readNat, reached, pure_bind, found]
  exact if_pos bounded

theorem readUInt8_integer (n : UInt8) : readUInt8 (.integer n.toNat) = pure n := by
  rw [readUInt8, readNat_integer (Nat.le_of_lt_succ n.toNat_lt), map_pure]
  exact congrArg pure (UInt8.ofNat_toNat)

theorem readUInt16_integer (n : UInt16) : readUInt16 (.integer n.toNat) = pure n := by
  rw [readUInt16, readNat_integer (Nat.le_of_lt_succ n.toNat_lt), map_pure]
  exact congrArg pure (UInt16.ofNat_toNat)

section

variable {α β : Type}

theorem readList_list {read : Datum → Reading α} {write : α → Datum}
    (inverse : ∀ value, read (write value) = pure value) (values : List α) :
    readList read (.list (values.map write)) = pure values := by
  have items : readItems (.list (values.map write)) = pure (values.map write) := rfl
  rw [readList, items, pure_bind]
  induction values with
  | nil => rfl
  | cons first rest ih =>
      rw [List.map_cons, List.mapM_cons, inverse, pure_bind, ih rfl, pure_bind]

theorem foldFields_ofFields {σ : Type} (take : σ → String → Datum → Reading σ) (start : σ)
    (fields : List (String × Datum)) :
    foldFields take start (.ofFields fields) =
      fields.foldlM (fun state field => take state field.1 field.2) start := by
  have named : readFields (.ofFields fields) =
      pure (fields.map fun field => (.text field.1, field.2)) := rfl
  rw [foldFields, named, pure_bind, List.foldlM_map]
  simp only [readText_text, pure_bind]

variable {first second : String} {readFirst : Datum → Reading α} {readSecond : Datum → Reading β}
  {fields : Fields α β} {value : Datum}

theorem Fields.take_first (none : fields.1 = .none) :
    fields.take first readFirst second readSecond first value =
      (fun read => (some read, fields.2)) <$> readFirst value := by
  rw [take, if_pos rfl, none]
  exact bind_map_left ..

theorem Fields.take_second (distinct : first ≠ second) (none : fields.2 = .none) :
    fields.take first readFirst second readSecond second value =
      (fun read => (fields.1, some read)) <$> readSecond value := by
  rw [take, if_neg distinct.symm, if_pos rfl, none]
  exact bind_map_left ..

/-- Two fields that were written in order are read back. -/
theorem readTwo_ofFields {left : α} {right : β} {leftDatum rightDatum : Datum}
    (distinct : first ≠ second) (readLeft : readFirst leftDatum = pure left)
    (readRight : readSecond rightDatum = pure right) :
    readTwo first readFirst second readSecond
        (.ofFields [(first, leftDatum), (second, rightDatum)]) = pure (left, right) := by
  have folded : foldFields (Fields.take first readFirst second readSecond) (none, none)
      (.ofFields [(first, leftDatum), (second, rightDatum)]) = pure (some left, some right) := by
    rw [foldFields_ofFields, List.foldlM_cons, Fields.take_first rfl, readLeft, map_pure,
      pure_bind, List.foldlM_cons, Fields.take_second distinct rfl, readRight, map_pure, pure_bind]
    rfl
  rw [readTwo, folded, pure_bind]
  rfl

end

/-! ## Values with some allowance -/

namespace Reading

variable {α β : Type} {reading : Reading α} {value : α}

/-- The reading gives the value, if enough references may be followed. -/
def Gives (reading : Reading α) (value : α) : Prop :=
  ∃ allowance, reading.within allowance = .ok value

theorem gives_iff_run :
    reading.Gives value ↔ ∃ allowance left, reading.run allowance = .ok (value, left) := by
  refine exists_congr fun allowance => ?_
  rw [within, StateT.run'_eq]
  cases reading.run allowance with
  | error fault => simp [Functor.map, Except.map]
  | ok result =>
      rcases result with ⟨given, left⟩
      simp [Functor.map, Except.map]

theorem exists_error_of_not_gives (nothing : ∀ value, ¬ reading.Gives value) (allowance : Nat) :
    ∃ fault, reading.within allowance = .error fault := by
  cases read : reading.within allowance with
  | error fault => exact ⟨fault, rfl⟩
  | ok value => exact absurd ⟨allowance, read⟩ (nothing value)

theorem gives_pure_iff {given : α} : Gives (pure given) value ↔ given = value := by
  constructor
  · rintro ⟨_, read⟩
    exact Except.ok.inj read
  · rintro rfl
    exact ⟨0, rfl⟩

theorem not_gives_throw (fault : Fault) : ¬ Gives (throw fault) value := by
  rintro ⟨_, read⟩
  contradiction

theorem Gives.of_bind {next : α → Reading β} {result : β}
    (given : (reading >>= next).Gives result) :
    ∃ value, reading.Gives value ∧ (next value).Gives result := by
  rcases gives_iff_run.mp given with ⟨allowance, left, run⟩
  rw [StateT.run_bind] at run
  cases first : reading.run allowance with
  | error fault =>
      rw [first] at run
      contradiction
  | ok result =>
      rcases result with ⟨value, middle⟩
      rw [first] at run
      exact ⟨value, gives_iff_run.mpr ⟨allowance, middle, first⟩,
        gives_iff_run.mpr ⟨middle, left, run⟩⟩

theorem Gives.of_map {change : α → β} {result : β} (given : (change <$> reading).Gives result) :
    ∃ value, reading.Gives value ∧ change value = result := by
  rw [map_eq_pure_bind] at given
  rcases given.of_bind with ⟨value, read, changed⟩
  exact ⟨value, read, gives_pure_iff.mp changed⟩

/-- The reading does not give two values, whatever it is allowed. -/
def Steady (reading : Reading α) : Prop :=
  ∀ value other, reading.Gives value → reading.Gives other → value = other

theorem steady_pure (value : α) : Steady (pure value) := by
  intro first second isFirst isSecond
  exact (gives_pure_iff.mp isFirst).symm.trans (gives_pure_iff.mp isSecond)

theorem steady_throw (fault : Fault) : Steady (throw fault : Reading α) :=
  fun _ _ given => absurd given (not_gives_throw fault)

theorem Steady.bind {next : α → Reading β} (steady : reading.Steady)
    (steadyNext : ∀ value, (next value).Steady) : (reading >>= next).Steady := by
  intro first second isFirst isSecond
  rcases isFirst.of_bind with ⟨value, read, firstNext⟩
  rcases isSecond.of_bind with ⟨other, readAgain, secondNext⟩
  cases steady value other read readAgain
  exact steadyNext value first second firstNext secondNext

theorem Steady.map {change : α → β} (steady : reading.Steady) : (change <$> reading).Steady := by
  rw [map_eq_pure_bind]
  exact steady.bind fun value => steady_pure (change value)

theorem steady_unit (reading : Reading Unit) : reading.Steady :=
  fun _ _ _ _ => rfl

theorem steady_mapM {read : α → Reading β} (steady : ∀ value, (read value).Steady)
    (values : List α) : (values.mapM read).Steady := by
  induction values with
  | nil => exact steady_pure []
  | cons first rest ih =>
      rw [List.mapM_cons]
      exact (steady first).bind fun value => ih.bind fun more => steady_pure (value :: more)

theorem Gives.of_mapM {read : α → Reading β} {values : List α} {results : List β}
    (given : (values.mapM read).Gives results) :
    List.Forall₂ (fun value result => (read value).Gives result) values results := by
  induction values generalizing results with
  | nil =>
      cases gives_pure_iff.mp given
      exact .nil
  | cons first rest ih =>
      rw [List.mapM_cons] at given
      rcases given.of_bind with ⟨result, here, given⟩
      rcases given.of_bind with ⟨more, later, given⟩
      cases gives_pure_iff.mp given
      exact .cons here (ih later)

end Reading

/-! ## What a reader finds -/

/-- The datum itself, or the one that stands elsewhere. -/
def target : Datum → Datum
  | .reference target => target
  | datum => datum

/-- The text of a scalar. -/
def name? (datum : Datum) : Option String :=
  match datum.target with
  | .text content | .plain content => some content
  | _ => none

/-- The items of a list. -/
def items (datum : Datum) : List Datum :=
  match datum.target with
  | .list items => items
  | _ => []

/-- The fields of a record. -/
def fields (datum : Datum) : List (Datum × Datum) :=
  match datum.target with
  | .record fields => fields
  | _ => []

theorem eq_target_of_reach {datum reached : Datum} (given : datum.reach.Gives reached) :
    reached = datum.target := by
  cases datum with
  | reference target =>
      rcases given.of_bind with ⟨_, _, returned⟩
      exact (Reading.gives_pure_iff.mp returned).symm
  | _ => exact (Reading.gives_pure_iff.mp given).symm

theorem name?_of_readText {datum : Datum} {content : String}
    (given : datum.readText.Gives content) : datum.name? = some content := by
  rcases given.of_bind with ⟨reached, followed, given⟩
  cases eq_target_of_reach followed
  split at given
  next found => rw [name?, found, Reading.gives_pure_iff.mp given]
  next found => rw [name?, found, Reading.gives_pure_iff.mp given]
  next => exact absurd given (Reading.not_gives_throw _)

theorem name?_of_readChoice {format : Format} {name : Datum} {others : List (Datum × Datum)}
    {content : String} (given : (readChoice format name others).Gives content) :
    name.name? = some content := by
  rw [readChoice] at given
  split at given
  · exact absurd given (Reading.not_gives_throw _)
  · exact name?_of_readText given

theorem eq_items_of_readItems {datum : Datum} {found : List Datum}
    (given : datum.readItems.Gives found) : found = datum.items := by
  rcases given.of_bind with ⟨reached, followed, given⟩
  cases eq_target_of_reach followed
  split at given
  next isList => rw [items, isList, Reading.gives_pure_iff.mp given]
  next isEmpty => rw [items, isEmpty, Reading.gives_pure_iff.mp given]
  next => exact absurd given (Reading.not_gives_throw _)

theorem eq_fields_of_readFields {datum : Datum} {found : List (Datum × Datum)}
    (given : datum.readFields.Gives found) : found = datum.fields := by
  rcases given.of_bind with ⟨reached, followed, given⟩
  cases eq_target_of_reach followed
  split at given
  next isRecord => rw [fields, isRecord, Reading.gives_pure_iff.mp given]
  next isEmpty => rw [fields, isEmpty, Reading.gives_pure_iff.mp given]
  next => exact absurd given (Reading.not_gives_throw _)

theorem eq_some_of_required {α : Type} {value? : Option α} {value : α}
    (given : (required value?).Gives value) : value? = some value := by
  cases value? with
  | none => exact absurd given (Reading.not_gives_throw _)
  | some found => rw [Reading.gives_pure_iff.mp given]

theorem eq_nil_of_alone {α : Type} {others : List α} {done : Unit}
    (given : (alone others).Gives done) : others = [] := by
  rw [alone] at given
  split at given
  next none => exact List.isEmpty_iff.mp none
  next => exact absurd given (Reading.not_gives_throw _)

theorem forall₂_of_readList {α : Type} {read : Datum → Reading α} {datum : Datum}
    {values : List α} (given : (readList read datum).Gives values) :
    List.Forall₂ (fun item value => (read item).Gives value) datum.items values := by
  rcases given.of_bind with ⟨found, isItems, given⟩
  cases eq_items_of_readItems isItems
  exact given.of_mapM

/-- The values that stand under a name. -/
def valuesOf (name : String) (fields : List (Datum × Datum)) : List Datum :=
  (fields.filter (·.1.name? = some name)).map (·.2)

namespace Fields

variable {α β : Type} {first second : String} {readFirst : Datum → Reading α}
  {readSecond : Datum → Reading β} {read next : Fields α β}

theorem eq_some_of_both {both : α × β} (given : read.both.Gives both) :
    read = (some both.1, some both.2) := by
  rcases given.of_bind with ⟨left, isLeft, given⟩
  rcases given.of_bind with ⟨right, isRight, given⟩
  cases Reading.gives_pure_iff.mp given
  exact Prod.ext (eq_some_of_required isLeft) (eq_some_of_required isRight)

/-- A field of another name leaves the second value as it is, and its own is read once. -/
theorem kept_or_taken {name : String} {value : Datum} (distinct : first ≠ second)
    (given : (read.take first readFirst second readSecond name value).Gives next) :
    (name ≠ second ∧ next.2 = read.2) ∨
      (name = second ∧ read.2 = none ∧
        ∃ content, (readSecond value).Gives content ∧ next.2 = some content) := by
  rw [take] at given
  by_cases isFirst : name = first
  · rw [if_pos isFirst] at given
    rcases given.of_bind with ⟨_, _, given⟩
    exact .inl ⟨isFirst ▸ distinct, congrArg (·.2) (Reading.gives_pure_iff.mp given).symm⟩
  rw [if_neg isFirst] at given
  by_cases isSecond : name = second
  · rw [if_pos isSecond] at given
    rcases given.of_bind with ⟨slot, kept, given⟩
    cases Reading.gives_pure_iff.mp given
    rw [once] at kept
    split at kept
    · exact absurd kept (Reading.not_gives_throw _)
    next free =>
      rcases kept.of_map with ⟨content, isContent, rfl⟩
      exact .inr ⟨isSecond, Option.not_isSome_iff_eq_none.mp free, content, isContent, rfl⟩
  · rw [if_neg isSecond] at given
    rcases given.of_bind with ⟨_, _, given⟩
    exact .inl ⟨isSecond, congrArg (·.2) (Reading.gives_pure_iff.mp given).symm⟩

theorem exists_added_of_foldlM (distinct : first ≠ second) {found : List (Datum × Datum)}
    (given : (found.foldlM (fun state (field : Datum × Datum) => do
      take first readFirst second readSecond state (← readText field.1) field.2) read).Gives next) :
    ∃ added, next.2.toList = read.2.toList ++ added ∧
      List.Forall₂ (fun value content => (readSecond value).Gives content)
        (valuesOf second found) added := by
  induction found generalizing read with
  | nil =>
      cases Reading.gives_pure_iff.mp given
      exact ⟨[], (List.append_nil _).symm, .nil⟩
  | cons field rest ih =>
      rw [List.foldlM_cons] at given
      rcases given.of_bind with ⟨middle, taken, given⟩
      rcases taken.of_bind with ⟨name, isName, taken⟩
      rcases ih given with ⟨added, next_eq, fromRest⟩
      have named := name?_of_readText isName
      rcases kept_or_taken distinct taken with
        ⟨other, kept⟩ | ⟨rfl, free, content, isContent, isTaken⟩
      · refine ⟨added, by rw [next_eq, kept], ?_⟩
        rwa [valuesOf, List.filter_cons_of_neg (by simpa [named] using other)]
      · refine ⟨content :: added, by rw [next_eq, free, isTaken]; rfl, ?_⟩
        rw [valuesOf, List.filter_cons_of_pos (by simpa using named), List.map_cons]
        exact .cons isContent fromRest

/-- The second value of a record is read from the one field of its name. -/
theorem forall₂_of_foldFields {datum : Datum} (distinct : first ≠ second)
    (given : (datum.foldFields (take first readFirst second readSecond) (none, none)).Gives next) :
    List.Forall₂ (fun value content => (readSecond value).Gives content)
      (valuesOf second datum.fields) next.2.toList := by
  rcases given.of_bind with ⟨found, isFields, given⟩
  cases eq_fields_of_readFields isFields
  rcases exists_added_of_foldlM distinct given with ⟨added, added_eq, fromFields⟩
  rw [added_eq]
  exact fromFields

end Fields

/-! ## The readers are steady -/

theorem steady_reach (datum : Datum) : datum.reach.Steady := by
  cases datum with
  | reference target => exact (Reading.steady_unit _).bind fun _ => Reading.steady_pure target
  | _ => exact Reading.steady_pure _

theorem steady_required {α : Type} (value? : Option α) : (required value?).Steady := by
  cases value? with
  | none => exact Reading.steady_throw _
  | some value => exact Reading.steady_pure value

theorem steady_bare {α : Type} (value? : Option α) (datum : Datum) :
    (bare value? datum).Steady := by
  cases datum with
  | nothing => exact steady_required value?
  | _ => exact Reading.steady_throw _

theorem steady_readText (datum : Datum) : datum.readText.Steady := by
  refine datum.steady_reach.bind fun reached => ?_
  split
  · exact Reading.steady_pure _
  · exact Reading.steady_pure _
  · exact Reading.steady_throw _

theorem steady_readNat (limit : Nat) (datum : Datum) : (readNat limit datum).Steady := by
  refine datum.steady_reach.bind fun reached => ?_
  split
  · split
    · exact Reading.steady_pure _
    · exact Reading.steady_throw _
  · exact Reading.steady_throw _

theorem steady_readUInt8 (datum : Datum) : (readUInt8 datum).Steady :=
  (steady_readNat 0xFF datum).map

theorem steady_readItems (datum : Datum) : datum.readItems.Steady := by
  refine datum.steady_reach.bind fun reached => ?_
  split
  · exact Reading.steady_pure _
  · exact Reading.steady_pure _
  · exact Reading.steady_throw _

theorem steady_readList {α : Type} {read : Datum → Reading α}
    (steady : ∀ datum, (read datum).Steady) (datum : Datum) : (readList read datum).Steady :=
  datum.steady_readItems.bind fun items => Reading.steady_mapM steady items

theorem steady_readChoice (format : Format) (name : Datum) (others : List (Datum × Datum)) :
    (readChoice format name others).Steady := by
  rw [readChoice]
  split
  · exact Reading.steady_throw _
  · exact name.steady_readText

end MidiScore.Datum
