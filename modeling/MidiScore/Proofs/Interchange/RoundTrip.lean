import MidiScore.Interchange.Declaration
import MidiScore.Proofs.Datum.Reader
import MidiScore.Proofs.Note.Canonical

/-!
# Reading what was written

Every declaration is read back from the datum it is written as, at any depth and without
following a reference.  A property list is checked and sorted again on the way, but it is
admissible and in canonical order already, `PropertyList.ofList_toList`.
-/

namespace MidiScore

open Datum (Format Reading readList readText readUInt8)

namespace Property

theorem ofDatum_single (format : Format) (name : String) (content : Datum) :
    ofDatum format (.single name content) = ofContent name content := by
  have chosen : Datum.readChoice format (.text name) [] = pure name := if_neg (by simp)
  have reached : (Datum.single name content).reach = pure (.record [(.text name, content)]) := rfl
  rw [ofDatum, reached, pure_bind]
  simp only [chosen, pure_bind, Datum.alone, List.isEmpty_nil, if_true, bind_pure]

theorem ofDatum_toDatum (format : Format) (property : Property) :
    ofDatum format property.toDatum = pure property := by
  cases property with
  | value parts =>
      rw [toDatum, ofDatum_single, ofContent, Datum.readUInt8_integer, pure_bind]
  | tuplet division =>
      rw [toDatum, ofDatum_single, ofContent, Datum.readUInt8_integer, pure_bind]
  | _ => rfl

end Property

theorem PropertyList.ofDatum_toDatum (format : Format) (list : PropertyList) :
    ofDatum format list.toDatum = pure list := by
  rw [ofDatum, toDatum, Datum.readList_list (Property.ofDatum_toDatum format), pure_bind,
    ofList_toList]

namespace Note

theorem ofDatum_toDatum (format : Format) (note : Note) :
    ofDatum format note.toDatum = pure note := by
  have asRecord : ofDatum format note.toDatum = ofFields format note.toDatum := by
    rw [toDatum]
    split <;> cases format <;> rfl
  rw [asRecord, ofFields, toDatum]
  by_cases none : note.properties.isEmpty
  · have empty : note.properties = .empty :=
      PropertyList.ext_toList (List.isEmpty_iff.mp none)
    rw [if_pos none, Datum.foldFields_ofFields, List.foldlM_cons, Datum.Fields.take_first rfl,
      Datum.readChar_text, map_pure, pure_bind, List.foldlM_nil, pure_bind]
    have left : (⟨note.name, .empty⟩ : Note) = note := by rw [← empty]
    exact congrArg (pure : Note → Reading Note) left
  · rw [if_neg none, Datum.foldFields_ofFields, List.foldlM_cons, Datum.Fields.take_first rfl,
      Datum.readChar_text, map_pure, pure_bind, List.foldlM_cons,
      Datum.Fields.take_second (by decide) rfl, PropertyList.ofDatum_toDatum, map_pure, pure_bind]
    rfl

end Note

namespace Declaration

/-- The name of a choice decides how its content is read. -/
theorem ofDatum_record (format : Format) (name content : Datum) (others : List (Datum × Datum)) :
    ofDatum format (.record ((name, content) :: others)) = do
      let word ← Datum.readChoice format name others
      let declaration ←
        (if word = "define_bar" then barOfDatum format content
          else ofContent format word content : Reading Declaration)
      Datum.alone others
      return declaration := by
  rw [ofDatum]
  congr 1
  funext word
  split <;> rfl

theorem ofDatum_single (format : Format) (name : String) (content : Datum) :
    ofDatum format (.single name content) =
      if name = "define_bar" then barOfDatum format content else ofContent format name content := by
  have chosen : Datum.readChoice format (.text name) [] = pure name := if_neg (by simp)
  rw [Datum.single, ofDatum_record, chosen, pure_bind]
  exact bind_pure _

/-- The definition of a bar is read back once its body is. -/
theorem barOfDatum_ofFields (format : Format) (name : String) (body : Datum) :
    barOfDatum format (.ofFields [("name", .text name), ("body", body)]) =
      defineBar name <$> bodyOfDatum format body := by
  rw [Datum.ofFields, barOfDatum, List.map_cons, List.map_singleton, barOfFields,
    Datum.readText_text, pure_bind, Datum.Fields.take_first rfl, Datum.readText_text, map_pure,
    pure_bind, barOfFields, Datum.readText_text, pure_bind,
    Datum.Fields.take_second (by decide) rfl, map_eq_pure_bind, bind_assoc, bind_assoc]
  simp only [pure_bind, barOfFields]
  exact (map_eq_pure_bind ..).symm

mutual

theorem ofDatum_toDatum (format : Format) :
    ∀ declaration, ofDatum format (toDatum declaration) = pure declaration
  | .assign note target => by
      rw [toDatum, ofDatum_single, if_neg (by decide), ofContent,
        Datum.readTwo_ofFields (by decide) (Datum.readChar_text note)
          (Datum.readUInt8_integer target), pure_bind]
  | .defineBar name body => by
      rw [toDatum, ofDatum_single, if_pos rfl, barOfDatum_ofFields, bodyOfDatum,
        ofItems_bodyToData format body, map_pure]
  | .play name => by
      rw [toDatum, ofDatum_single, if_neg (by decide), ofContent, Datum.readText_text, pure_bind]
  | .tempo bpm => by
      rw [toDatum, ofDatum_single, if_neg (by decide), ofContent, Datum.readUInt16_integer,
        pure_bind]
  | .timeSignature meter => by
      rw [toDatum, ofDatum_single, if_neg (by decide), ofContent,
        Datum.readTwo_ofFields (by decide) (Datum.readUInt8_integer meter.numerator)
          (Datum.readUInt8_integer meter.denominator), pure_bind]
  | .velocity value => by
      rw [toDatum, ofDatum_single, if_neg (by decide), ofContent, Datum.readUInt8_integer,
        pure_bind]
  | .channel number => by
      rw [toDatum, ofDatum_single, if_neg (by decide), ofContent, Datum.readUInt8_integer,
        pure_bind]
  | .program number => by
      rw [toDatum, ofDatum_single, if_neg (by decide), ofContent, Datum.readUInt8_integer,
        pure_bind]
  | .control number value => by
      rw [toDatum, ofDatum_single, if_neg (by decide), ofContent,
        Datum.readTwo_ofFields (by decide) (Datum.readUInt8_integer number)
          (Datum.readUInt8_integer value), pure_bind]
  | .start => rfl
  | .stop => rfl
  | .key scale => by
      rw [toDatum, ofDatum_single, if_neg (by decide), ofContent, Datum.readText_text, pure_bind]
  | .text content => by
      rw [toDatum, ofDatum_single, if_neg (by decide), ofContent, Datum.readText_text, pure_bind]
  | .notes list => by
      rw [toDatum, ofDatum_single, if_neg (by decide), ofContent,
        Datum.readList_list (Note.ofDatum_toDatum format), pure_bind]

/-- The declarations of a body are read back one after another. -/
theorem ofItems_bodyToData (format : Format) :
    ∀ body, ofItems format (bodyToData body) = pure body
  | [] => rfl
  | first :: rest => by
      rw [bodyToData, ofItems, ofDatum_toDatum format first, pure_bind,
        ofItems_bodyToData format rest, pure_bind]

end

theorem bodyOfDatum_list (format : Format) (body : List Declaration) :
    bodyOfDatum format (.list (bodyToData body)) = pure body :=
  ofItems_bodyToData format body

end Declaration

end MidiScore
