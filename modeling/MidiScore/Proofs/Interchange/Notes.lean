import Mathlib.Data.List.Forall2
import MidiScore.Interchange.Score
import MidiScore.Proofs.Interchange.RoundTrip

/-!
# The property lists of what was read

The notes of a declaration that is read are those of the data at the places of notes in the
datum, `Declaration.noteData`, one for one.  Each of them has the properties that its datum
gives, checked and in canonical order.  So nothing is read from a datum with a property
list that would be refused, at any depth: `Declaration.interchange_lossless_and_checked`.
-/

namespace MidiScore

open Datum (Format Reading)

/-! ## Notes -/

namespace Property

theorem steady_ofContent (name : String) (content : Datum) : (ofContent name content).Steady := by
  unfold ofContent
  split
  · exact (Datum.steady_readUInt8 content).bind fun _ => Reading.steady_pure _
  · exact (Datum.steady_readUInt8 content).bind fun _ => Reading.steady_pure _
  · exact Datum.steady_bare _ content

theorem steady_ofDatum (format : Format) (datum : Datum) : (ofDatum format datum).Steady := by
  refine datum.steady_reach.bind fun reached => ?_
  split
  · exact Datum.steady_required _
  · exact Datum.steady_required _
  next name content others =>
    refine (Datum.steady_readChoice format name others).bind fun word => ?_
    refine (steady_ofContent word content).bind fun property => ?_
    exact (Reading.steady_unit _).bind fun _ => Reading.steady_pure property
  · exact Reading.steady_throw _

end Property

namespace PropertyList

/-- The members that stand in a datum make up the list. -/
def IsReadFrom (format : Format) (datum : Datum) (list : PropertyList) : Prop :=
  ∃ members, (Datum.readList (Property.ofDatum format) datum).Gives members ∧
    ofList members = .ok list

/-- The members that stand in a datum are refused as a property list. -/
def IsRefused (format : Format) (datum : Datum) : Prop :=
  ∃ members error, (Datum.readList (Property.ofDatum format) datum).Gives members ∧
    ofList members = .error error

theorem isReadFrom_of_gives {format : Format} {datum : Datum} {list : PropertyList}
    (given : (ofDatum format datum).Gives list) : list.IsReadFrom format datum := by
  rcases given.of_bind with ⟨members, isMembers, given⟩
  refine ⟨members, isMembers, ?_⟩
  split at given
  next accepted => rw [accepted, Reading.gives_pure_iff.mp given]
  next => exact absurd given (Reading.not_gives_throw _)

/-- A datum is read to one list of members, so it is not both read and refused. -/
theorem IsReadFrom.not_isRefused {format : Format} {datum : Datum} {list : PropertyList}
    (isReadFrom : list.IsReadFrom format datum) : ¬ IsRefused format datum := by
  rintro ⟨others, error, isOthers, refused⟩
  rcases isReadFrom with ⟨members, isMembers, accepted⟩
  have steady := Datum.steady_readList (Property.steady_ofDatum format) datum
  cases steady members others isMembers isOthers
  rw [accepted] at refused
  contradiction

end PropertyList

namespace Note

/-- The data at the place of the property list of a note. -/
def propertyData (format : Format) (datum : Datum) : List Datum :=
  match format, datum with
  | .json, .list (_ :: properties :: _) => [properties]
  | _, _ => Datum.valuesOf "properties" datum.fields

/-- The property list of the note stands in the datum; where none stands it is empty. -/
def IsReadFrom (format : Format) (datum : Datum) (note : Note) : Prop :=
  (propertyData format datum = [] ∧ note.properties = .empty) ∨
    ∃ properties, propertyData format datum = [properties] ∧
      note.properties.IsReadFrom format properties

section

variable {format : Format} {datum : Datum} {note : Note}

theorem properties_of_ofFields (given : (ofFields format datum).Gives note) :
    (Datum.valuesOf "properties" datum.fields = [] ∧ note.properties = .empty) ∨
      ∃ properties, Datum.valuesOf "properties" datum.fields = [properties] ∧
        note.properties.IsReadFrom format properties := by
  rcases given.of_bind with ⟨⟨name?, list?⟩, folded, given⟩
  rcases given.of_bind with ⟨name, isName, given⟩
  cases Reading.gives_pure_iff.mp given
  have found := Datum.Fields.forall₂_of_foldFields (by decide) folded
  cases list? with
  | none => exact .inl ⟨List.forall₂_nil_right_iff.mp found, rfl⟩
  | some list =>
      rcases List.forall₂_cons_right_iff.mp found with ⟨properties, rest, isList, none, split⟩
      rw [List.forall₂_nil_right_iff.mp none] at split
      exact .inr ⟨properties, split, PropertyList.isReadFrom_of_gives isList⟩

theorem isReadFrom_of_ofItems {items : List Datum} (given : (ofItems .json items).Gives note) :
    note.IsReadFrom .json (.list items) := by
  cases items with
  | nil => exact absurd given (Reading.not_gives_throw _)
  | cons name rest =>
      cases rest with
      | nil =>
          rcases given.of_bind with ⟨_, _, given⟩
          cases Reading.gives_pure_iff.mp given
          exact .inl ⟨rfl, rfl⟩
      | cons properties others =>
          rcases given.of_bind with ⟨_, _, given⟩
          rcases given.of_bind with ⟨list, isList, given⟩
          rcases given.of_bind with ⟨_, _, given⟩
          cases Reading.gives_pure_iff.mp given
          exact .inr ⟨properties, rfl, PropertyList.isReadFrom_of_gives isList⟩

theorem isReadFrom_of_gives (given : (ofDatum format datum).Gives note) :
    note.IsReadFrom format datum := by
  unfold ofDatum at given
  split at given
  · exact isReadFrom_of_ofItems given
  next noItems =>
    have byName : propertyData format datum = Datum.valuesOf "properties" datum.fields := by
      unfold propertyData
      split
      next => exact absurd rfl (noItems _ rfl)
      next => rfl
    rw [IsReadFrom, byName]
    exact properties_of_ofFields given

/-- Some of the data for notes has a property list that is refused. -/
def AnyRefused (format : Format) (data : List Datum) : Prop :=
  ∃ datum ∈ data, ∃ properties ∈ propertyData format datum,
    PropertyList.IsRefused format properties

theorem IsReadFrom.not_isRefused (isReadFrom : note.IsReadFrom format datum) :
    ∀ properties ∈ propertyData format datum, ¬ PropertyList.IsRefused format properties := by
  rcases isReadFrom with ⟨none, -⟩ | ⟨properties, one, list⟩
  · simp [none]
  · simpa [one] using list.not_isRefused

theorem not_anyRefused_of_forall₂ {data : List Datum} {notes : List Note}
    (read : List.Forall₂ (Note.IsReadFrom format) data notes) :
    ¬ AnyRefused format data := by
  rintro ⟨datum, member, properties, listed, refused⟩
  induction read with
  | nil => contradiction
  | cons here _ ih =>
      rcases List.mem_cons.mp member with rfl | later
      · exact here.not_isRefused properties listed refused
      · exact ih later

end

end Note

/-! ## Declarations -/

namespace Declaration

mutual

/-- The notes of a declaration, with those in its body. -/
def allNotes : Declaration → List Note
  | .defineBar _ body => bodyNotes body
  | .notes list => list
  | _ => []

/-- The notes of the declarations of a body. -/
def bodyNotes : List Declaration → List Note
  | [] => []
  | first :: rest => allNotes first ++ bodyNotes rest

end

mutual

/-- The data at the places of notes in a declaration. -/
def noteData : Datum → List Datum
  | .record choices => choiceNoteData choices
  | .reference target => noteData target
  | _ => []

/-- The data at the places of notes in declarations by their names. -/
def choiceNoteData : List (Datum × Datum) → List Datum
  | [] => []
  | (name, content) :: rest =>
      (if name.name? = some "define_bar" then barNoteData content
        else if name.name? = some "note_list" then content.items
        else []) ++
        choiceNoteData rest

/-- The data at the places of notes in the definition of a bar. -/
def barNoteData : Datum → List Datum
  | .record fields => fieldNoteData fields
  | .reference target => barNoteData target
  | _ => []

/-- The data at the places of notes in the fields of the definition of a bar. -/
def fieldNoteData : List (Datum × Datum) → List Datum
  | [] => []
  | (name, value) :: rest =>
      (if name.name? = some "body" then bodyNoteData value else []) ++ fieldNoteData rest

/-- The data at the places of notes in a body. -/
def bodyNoteData : Datum → List Datum
  | .list items => itemNoteData items
  | .reference target => bodyNoteData target
  | _ => []

/-- The data at the places of notes in declarations one after another. -/
def itemNoteData : List Datum → List Datum
  | [] => []
  | first :: rest => noteData first ++ itemNoteData rest

end

section

variable {format : Format} {declaration : Declaration}

theorem notes_of_ofName? {name : String} (found : ofName? name = some declaration) :
    declaration.allNotes = [] := by
  unfold ofName? at found
  split at found
  · cases found
    rfl
  · cases found
    rfl
  · contradiction

theorem notes_of_required {name : String}
    (given : (Datum.required (ofName? name)).Gives declaration) : declaration.allNotes = [] := by
  cases found : ofName? name with
  | none =>
      rw [found] at given
      exact absurd given (Reading.not_gives_throw _)
  | some named =>
      rw [found] at given
      exact Reading.gives_pure_iff.mp given ▸ notes_of_ofName? found

theorem notes_of_bare {name : String} {content : Datum}
    (given : (Datum.bare (ofName? name) content).Gives declaration) :
    declaration.allNotes = [] := by
  cases content with
  | nothing => exact notes_of_required given
  | _ => exact absurd given (Reading.not_gives_throw _)

theorem notes_of_ofContent {name : String} {content : Datum}
    (given : (ofContent format name content).Gives declaration) :
    List.Forall₂ (Note.IsReadFrom format)
      (if name = "note_list" then content.items else []) declaration.allNotes := by
  unfold ofContent at given
  split at given
  case h_11 =>
    rcases given.of_bind with ⟨list, isList, given⟩
    cases Reading.gives_pure_iff.mp given
    exact (Datum.forall₂_of_readList isList).imp fun _ _ => Note.isReadFrom_of_gives
  case h_12 noList =>
    rw [if_neg noList, notes_of_bare given]
    exact .nil
  all_goals
    rcases given.of_bind with ⟨_, _, given⟩
    cases Reading.gives_pure_iff.mp given
    exact .nil

end

/-! ## One case for each kind of datum -/

section

variable {format : Format}

mutual

/-- The notes of what is read come from the data at their places, one for one. -/
theorem notes_of_ofDatum : ∀ (datum : Datum) {declaration : Declaration},
    (ofDatum format datum).Gives declaration →
      List.Forall₂ (Note.IsReadFrom format) (noteData datum) declaration.allNotes
  | .record ((name, content) :: others), declaration, given => by
      rw [ofDatum_record] at given
      rcases given.of_bind with ⟨word, isWord, given⟩
      rcases given.of_bind with ⟨read, isRead, given⟩
      rcases given.of_bind with ⟨_, alone, given⟩
      cases Reading.gives_pure_iff.mp given
      cases Datum.eq_nil_of_alone alone
      rw [noteData, choiceNoteData, Datum.name?_of_readChoice isWord, choiceNoteData,
        List.append_nil]
      simp only [Option.some.injEq]
      split at isRead
      next isBar =>
        rw [if_pos isBar]
        exact notes_of_barOfDatum content isRead
      next noBar =>
        rw [if_neg noBar]
        exact notes_of_ofContent isRead
  | .reference target, _, given => by
      rw [ofDatum] at given
      rcases given.of_bind with ⟨_, _, given⟩
      exact notes_of_ofDatum target given
  | .text name, _, given => by
      rw [ofDatum] at given
      rw [notes_of_required given]
      exact .nil
  | .plain name, _, given => by
      rw [ofDatum] at given
      rw [notes_of_required given]
      exact .nil
  | .integer _, _, given | .fraction _ _ _, _, given | .truth _, _, given | .nothing, _, given
  | .list _, _, given | .record [], _, given | .cut, _, given | .tooDeep, _, given =>
      absurd given (Reading.not_gives_throw _)

theorem notes_of_barOfDatum : ∀ (datum : Datum) {declaration : Declaration},
    (barOfDatum format datum).Gives declaration →
      List.Forall₂ (Note.IsReadFrom format) (barNoteData datum) declaration.allNotes
  | .record fields, declaration, given => by
      rw [barOfDatum] at given
      rcases given.of_bind with ⟨read, folded, given⟩
      rcases given.of_bind with ⟨⟨name, body⟩, both, given⟩
      cases Reading.gives_pure_iff.mp given
      rcases notes_of_barOfFields fields folded with ⟨added, notes_eq, fromFields⟩
      cases Datum.Fields.eq_some_of_both both
      have added_eq : bodyNotes body = added := notes_eq
      rw [barNoteData, allNotes, added_eq]
      exact fromFields
  | .reference target, _, given => by
      rw [barOfDatum] at given
      rcases given.of_bind with ⟨_, _, given⟩
      exact notes_of_barOfDatum target given
  | .integer _, _, given | .fraction _ _ _, _, given | .truth _, _, given | .nothing, _, given
  | .list _, _, given | .text _, _, given | .plain _, _, given | .cut, _, given
  | .tooDeep, _, given =>
      absurd given (Reading.not_gives_throw _)

theorem notes_of_barOfFields : ∀ (fields : List (Datum × Datum))
    {read next : Datum.Fields String (List Declaration)},
    (barOfFields format read fields).Gives next →
      ∃ added, bodyNotes (next.2.getD []) = bodyNotes (read.2.getD []) ++ added ∧
        List.Forall₂ (Note.IsReadFrom format) (fieldNoteData fields) added
  | [], _, _, given => by
      rw [barOfFields] at given
      cases Reading.gives_pure_iff.mp given
      exact ⟨[], (List.append_nil _).symm, .nil⟩
  | (name, value) :: rest, read, next, given => by
      rw [barOfFields] at given
      rcases given.of_bind with ⟨word, isWord, given⟩
      rcases given.of_bind with ⟨middle, taken, given⟩
      rcases notes_of_barOfFields rest given with ⟨added, next_eq, fromRest⟩
      rw [fieldNoteData, Datum.name?_of_readText isWord]
      simp only [Option.some.injEq]
      rcases Datum.Fields.kept_or_taken (by decide) taken with
        ⟨other, kept⟩ | ⟨rfl, free, body, isBody, isTaken⟩
      · rw [if_neg other]
        exact ⟨added, by rw [next_eq, kept], fromRest⟩
      · rw [if_pos rfl]
        refine ⟨bodyNotes body ++ added, ?_,
          List.rel_append (notes_of_bodyOfDatum value isBody) fromRest⟩
        rw [next_eq, free, isTaken]
        rfl

theorem notes_of_bodyOfDatum : ∀ (datum : Datum) {body : List Declaration},
    (bodyOfDatum format datum).Gives body →
      List.Forall₂ (Note.IsReadFrom format) (bodyNoteData datum) (bodyNotes body)
  | .list items, _, given => by
      rw [bodyOfDatum] at given
      exact notes_of_ofItems items given
  | .reference target, _, given => by
      rw [bodyOfDatum] at given
      rcases given.of_bind with ⟨_, _, given⟩
      exact notes_of_bodyOfDatum target given
  | .plain content, body, given => by
      unfold bodyOfDatum at given
      split at given
      case h_2 =>
        cases Reading.gives_pure_iff.mp given
        exact .nil
      case h_4 => exact absurd given (Reading.not_gives_throw _)
      all_goals contradiction
  | .integer _, _, given | .fraction _ _ _, _, given | .truth _, _, given | .nothing, _, given
  | .record _, _, given | .text _, _, given | .cut, _, given | .tooDeep, _, given =>
      absurd given (Reading.not_gives_throw _)

theorem notes_of_ofItems : ∀ (items : List Datum) {body : List Declaration},
    (ofItems format items).Gives body →
      List.Forall₂ (Note.IsReadFrom format) (itemNoteData items) (bodyNotes body)
  | [], _, given => by
      cases Reading.gives_pure_iff.mp given
      exact .nil
  | first :: rest, _, given => by
      rw [ofItems] at given
      rcases given.of_bind with ⟨declaration, isDeclaration, given⟩
      rcases given.of_bind with ⟨more, isMore, given⟩
      cases Reading.gives_pure_iff.mp given
      exact List.rel_append (notes_of_ofDatum first isDeclaration) (notes_of_ofItems rest isMore)

end

end

theorem gives_of_listOfText {text : String} {declarations : List Declaration}
    (loaded : listOfText text = .ok declarations) :
    (bodyOfDatum .yaml (Yaml.Document.ofText text).root).Gives declarations := by
  rw [listOfText, Yaml.Document.read] at loaded
  cases read : (bodyOfDatum .yaml (Yaml.Document.ofText text).root).within
      (Yaml.Document.ofText text).allowance with
  | error fault =>
      rw [read] at loaded
      contradiction
  | ok found =>
      rw [read] at loaded
      simp only [bind, Except.bind] at loaded
      split at loaded
      · cases loaded
        exact ⟨_, read⟩
      · contradiction

/-- A declaration is read back from what it is written as, at any depth.  Whatever is read,
from a datum of either format or from a text, has the notes that stand in it, one for one:
the property list of each is what its members are accepted as, so it is accepted again and
in canonical order, and the whole is read back once it is written.  A datum or a text with
a property list that is refused, at the place of any note, gives nothing. -/
theorem interchange_lossless_and_checked :
    (∀ format declaration, ofDatum format (toDatum declaration) = pure declaration) ∧
    (∀ format datum allowance declaration,
      (ofDatum format datum).within allowance = .ok declaration →
        List.Forall₂ (Note.IsReadFrom format) (noteData datum) declaration.allNotes ∧
        (∀ note ∈ declaration.allNotes,
          PropertyList.ofList note.properties.toList = .ok note.properties ∧
            note.properties.toList.Pairwise fun first second =>
              Property.precedes first second) ∧
        ∀ allowance, (ofDatum format declaration.toDatum).within allowance = .ok declaration) ∧
    (∀ format datum, Note.AnyRefused format (noteData datum) →
      ∀ allowance, ∃ fault, (ofDatum format datum).within allowance = .error fault) ∧
    (∀ text declarations, listOfText text = .ok declarations →
      List.Forall₂ (Note.IsReadFrom .yaml) (bodyNoteData (Yaml.Document.ofText text).root)
        (bodyNotes declarations) ∧
      ∀ format, bodyOfDatum format (.list (bodyToData declarations)) = pure declarations) ∧
    ∀ text, Note.AnyRefused .yaml (bodyNoteData (Yaml.Document.ofText text).root) →
      ∃ fault, listOfText text = .error fault := by
  refine ⟨ofDatum_toDatum, ?_, ?_, ?_, ?_⟩
  · intro format datum allowance declaration read
    refine ⟨notes_of_ofDatum datum ⟨allowance, read⟩, ?_, ?_⟩
    · intro note _
      exact ⟨note.properties.ofList_toList, note.properties.sorted⟩
    · intro allowance
      rw [ofDatum_toDatum format declaration]
      rfl
  · intro format datum refused
    refine Reading.exists_error_of_not_gives fun declaration given => ?_
    exact Note.not_anyRefused_of_forall₂ (notes_of_ofDatum datum given) refused
  · intro text declarations loaded
    exact ⟨notes_of_bodyOfDatum _ (gives_of_listOfText loaded),
      fun format => bodyOfDatum_list format declarations⟩
  · intro text refused
    cases loaded : listOfText text with
    | error fault => exact ⟨fault, rfl⟩
    | ok declarations =>
        have read := notes_of_bodyOfDatum _ (gives_of_listOfText loaded)
        exact absurd refused (Note.not_anyRefused_of_forall₂ read)

/-- A bar with a note in the short form, of which the properties stand in some order, and
a text.  A dot in front of a sharp is read and put behind it; a sharp with a flat is
refused. -/
theorem interchange_lossless_and_checked_dotted_sharp :
    let verse (members : List Datum) : Datum := .single "define_bar" (.ofFields
      [("name", .text "verse"),
        ("body", .list [.single "note_list" (.list [.list [.text "c", .list members]])])])
    let dotted : PropertyList :=
      ⟨[.sharp, .dot], Property.fault?_eq_none_iff.mp (by decide), by decide⟩
    let read : Declaration := .defineBar "verse" [.notes [⟨'c', dotted⟩]]
    ((ofDatum .json (verse [.text "dot", .text "sharp"])).within 0 = .ok read ∧
      (ofDatum .json read.toDatum).within 0 = .ok read) ∧
    (∀ allowance, ∃ fault,
      (ofDatum .json (verse [.text "sharp", .text "flat"])).within allowance = .error fault) ∧
    (listOfText "- note_list:\n  - name: c\n    properties: [dot, sharp]" =
        .ok [.notes [⟨'c', dotted⟩]] ∧
      bodyOfDatum .yaml (.list (bodyToData [.notes [⟨'c', dotted⟩]])) =
        pure [.notes [⟨'c', dotted⟩]]) ∧
    ∃ fault, listOfText "- note_list:\n  - name: c\n    properties: [sharp, flat]" =
      .error fault := by
  intro verse dotted read
  rcases interchange_lossless_and_checked with ⟨-, again, refused, againText, refusedText⟩
  have accepted : PropertyList.ofList [.dot, .sharp] = .ok dotted :=
    (PropertyList.ofList_eq_ok_iff_of_perm (by decide)).mpr dotted.ofList_toList
  have first : (ofDatum .json (verse [.text "dot", .text "sharp"])).within 0 = .ok read :=
    congrArg (fun list : PropertyList => Except.ok (defineBar "verse" [notes [⟨'c', list⟩]]))
      (Except.ok.inj accepted)
  have conflict : PropertyList.ofList [.sharp, .flat] =
      .error (.conflictingProperties .sharp .flat) := rfl
  -- the datum of the texts, and their tokens, which are the same up to two names
  let note (members : List Datum) : Datum :=
    .record [(.plain "name", .plain "c"), (.plain "properties", .list members)]
  let score (first second : String) : Datum :=
    .list [.record [(.plain "note_list", .list [note [.plain first, .plain second]])]]
  let tokens (first second : String) : List Yaml.Token :=
    [.blockSequence, .blockEntry, .blockMapping, .key, .scalar true "note_list", .value,
      .blockEntry, .blockMapping, .key, .scalar true "name", .value, .scalar true "c",
      .key, .scalar true "properties", .value, .flowSequence, .scalar true first, .flowEntry,
      .scalar true second, .flowSequenceEnd, .blockEnd, .blockEnd, .blockEnd, .textEnd]
  have document {text first second : String}
      (scanned : Yaml.Token.ofGlyphs (Yaml.Glyph.ofText text) = tokens first second) :
      Yaml.Document.ofText text = ⟨score first second, true, 1600⟩ := by
    rw [Yaml.Document.ofText, scanned]
    rfl
  have loaded : listOfText "- note_list:\n  - name: c\n    properties: [dot, sharp]" =
      .ok [.notes [⟨'c', dotted⟩]] := by
    rw [listOfText, @document _ "dot" "sharp" (by decide +kernel)]
    exact congrArg (fun list : PropertyList => Except.ok [notes [⟨'c', list⟩]])
      (Except.ok.inj accepted)
  have root : (Yaml.Document.ofText
      "- note_list:\n  - name: c\n    properties: [sharp, flat]").root = score "sharp" "flat" :=
    congrArg Yaml.Document.root (document (by decide +kernel))
  refine ⟨⟨first, (again _ _ _ _ first).2.2 0⟩, refused .json _ ?_,
    ⟨loaded, (againText _ _ loaded).2 .yaml⟩, refusedText _ (root ▸ ?_)⟩
  · exact ⟨.list [.text "c", .list [.text "sharp", .text "flat"]], List.mem_singleton.mpr rfl,
      .list [.text "sharp", .text "flat"], List.mem_singleton.mpr rfl, _, _, ⟨0, rfl⟩, conflict⟩
  · exact ⟨note [.plain "sharp", .plain "flat"], List.mem_singleton.mpr rfl,
      .list [.plain "sharp", .plain "flat"], List.mem_singleton.mpr rfl, _, _, ⟨0, rfl⟩, conflict⟩

end Declaration

end MidiScore
