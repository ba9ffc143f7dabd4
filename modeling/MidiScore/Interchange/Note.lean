import MidiScore.Datum.Fields
import MidiScore.Note.Basic

/-!
# Exchanging notes

Properties without a number are exchanged as texts and the others as records with
a single name.  Property lists are checked when they are read, after all their
members.
-/

namespace MidiScore

open Datum (Fields Format Reading alone bare once readChar readChoice readList readUInt8 required)

namespace Property

/-- The property of a name that takes no number. -/
def ofName? : String → Option Property
  | "sharp" => some .sharp
  | "flat" => some .flat
  | "accent" => some .accent
  | "marcato" => some .marcato
  | "ghost" => some .ghost
  | "staccato" => some .staccato
  | "dot" => some .dot
  | "let_ring" => some .letRing
  | _ => none

/-- Write a property. -/
def toDatum : Property → Datum
  | .sharp => .text "sharp"
  | .flat => .text "flat"
  | .accent => .text "accent"
  | .marcato => .text "marcato"
  | .ghost => .text "ghost"
  | .staccato => .text "staccato"
  | .value parts => .single "value" (.integer parts.toNat)
  | .dot => .text "dot"
  | .tuplet division => .single "tuplet" (.integer division.toNat)
  | .letRing => .text "let_ring"

/-- Read the property of a name and its content. -/
def ofContent (name : String) (content : Datum) : Reading Property := do
  match name with
  | "value" => return .value (← readUInt8 content)
  | "tuplet" => return .tuplet (← readUInt8 content)
  | name => bare (ofName? name) content

/-- Read a property. -/
def ofDatum (format : Format) (datum : Datum) : Reading Property := do
  match ← datum.reach with
  | .text name | .plain name => required (ofName? name)
  | .record ((name, content) :: others) => do
      let property ← ofContent (← readChoice format name others) content
      alone others
      return property
  | _ => throw .malformed

end Property

namespace PropertyList

/-- Write a property list in canonical order. -/
def toDatum (list : PropertyList) : Datum :=
  .list (list.toList.map Property.toDatum)

/-- Read a property list and check it. -/
def ofDatum (format : Format) (datum : Datum) : Reading PropertyList := do
  match ofList (← readList (Property.ofDatum format) datum) with
  | .ok list => return list
  | .error error => throw (.invalid error)

end PropertyList

namespace Note

/-- Write a note; an empty property list is left out. -/
def toDatum (note : Note) : Datum :=
  let name := ("name", Datum.text note.name.toString)
  if note.properties.isEmpty then .ofFields [name]
  else .ofFields [name, ("properties", note.properties.toDatum)]

/-- Read a note of which the fields have names.  Its properties may be left out. -/
def ofFields (format : Format) (datum : Datum) : Reading Note := do
  let take := Fields.take "name" readChar "properties" (PropertyList.ofDatum format)
  let (name, properties) ← datum.foldFields take (none, none)
  return ⟨← required name, properties.getD .empty⟩

/-- Read a note of which the fields have no names and stand in order.  Its properties
may be left out. -/
def ofItems (format : Format) : List Datum → Reading Note
  | [] => throw .malformed
  | [name] => return ⟨← readChar name, .empty⟩
  | name :: properties :: others => do
      let note : Note := ⟨← readChar name, ← PropertyList.ofDatum format properties⟩
      alone others
      return note

/-- Read a note.  In JSON its fields may go without their names. -/
def ofDatum (format : Format) (datum : Datum) : Reading Note :=
  match format, datum with
  | .json, .list items => ofItems format items
  | _, _ => ofFields format datum

end Note

end MidiScore
