import MidiScore.Datum.Fields
import MidiScore.Declaration
import MidiScore.Interchange.Note

/-!
# Exchanging declarations

A declaration is a record with a single name that says what is declared.  `start`
and `stop` take nothing and are texts.  A body is a list of declarations again.
-/

namespace MidiScore

open Datum (Fields Format Reading alone bare readChar readChoice readList readText readTwo readUInt8
  readUInt16 required)

namespace Declaration

mutual

/-- Write a declaration. -/
def toDatum : Declaration → Datum
  | .assign note target =>
      .single "assign" (.ofFields [("note", .text note.toString), ("key", .integer target.toNat)])
  | .defineBar name body =>
      .single "define_bar" (.ofFields [("name", .text name), ("body", .list (bodyToData body))])
  | .play name => .single "play" (.text name)
  | .tempo bpm => .single "tempo" (.integer bpm.toNat)
  | .timeSignature meter =>
      .single "time_signature" (.ofFields
        [("numerator", .integer meter.numerator.toNat),
          ("denominator", .integer meter.denominator.toNat)])
  | .velocity value => .single "velocity" (.integer value.toNat)
  | .channel number => .single "channel" (.integer number.toNat)
  | .program number => .single "program" (.integer number.toNat)
  | .control number value =>
      .single "control" (.ofFields
        [("control", .integer number.toNat), ("value", .integer value.toNat)])
  | .start => .text "start"
  | .stop => .text "stop"
  | .key scale => .single "key" (.text scale)
  | .text content => .single "text" (.text content)
  | .notes list => .single "note_list" (.list (list.map Note.toDatum))

/-- Write the declarations of a body. -/
def bodyToData : List Declaration → List Datum
  | [] => []
  | first :: rest => toDatum first :: bodyToData rest

end

/-- The declaration of a name that takes nothing. -/
def ofName? : String → Option Declaration
  | "start" => some .start
  | "stop" => some .stop
  | _ => none

/-- Read what a declaration without a body declares. -/
def ofContent (format : Format) (name : String) (content : Datum) : Reading Declaration := do
  match name with
  | "assign" =>
      let (note, target) ← readTwo "note" readChar "key" readUInt8 content
      return .assign note target
  | "play" => return .play (← readText content)
  | "tempo" => return .tempo (← readUInt16 content)
  | "time_signature" =>
      let (numerator, denominator) ←
        readTwo "numerator" readUInt8 "denominator" readUInt8 content
      return .timeSignature ⟨numerator, denominator⟩
  | "velocity" => return .velocity (← readUInt8 content)
  | "channel" => return .channel (← readUInt8 content)
  | "program" => return .program (← readUInt8 content)
  | "control" =>
      let (number, value) ← readTwo "control" readUInt8 "value" readUInt8 content
      return .control number value
  | "key" => return .key (← readText content)
  | "text" => return .text (← readText content)
  | "note_list" => return .notes (← readList (Note.ofDatum format) content)
  | name => bare (ofName? name) content

mutual

/-- Read a declaration. -/
def ofDatum (format : Format) : Datum → Reading Declaration
  | .text name | .plain name => required (ofName? name)
  | .record ((name, content) :: others) => do
      let name ← readChoice format name others
      let declaration ←
        if name = "define_bar" then barOfDatum format content
        else ofContent format name content
      alone others
      return declaration
  | .reference target => do
      Reading.follow
      ofDatum format target
  | _ => throw .malformed

/-- Read the definition of a bar. -/
def barOfDatum (format : Format) : Datum → Reading Declaration
  | .record fields => do
      let (name, body) ← (← barOfFields format (none, none) fields).both
      return .defineBar name body
  | .reference target => do
      Reading.follow
      barOfDatum format target
  | _ => throw .malformed

/-- Read the fields of the definition of a bar after those that were read. -/
def barOfFields (format : Format) (read : Fields String (List Declaration)) :
    List (Datum × Datum) → Reading (Fields String (List Declaration))
  | [] => return read
  | (name, value) :: rest => do
      let readBody (_ : Datum) : Reading (List Declaration) := bodyOfDatum format value
      let next ← read.take "name" readText "body" readBody (← readText name) value
      barOfFields format next rest

/-- Read a body; one that was left out is empty. -/
def bodyOfDatum (format : Format) : Datum → Reading (List Declaration)
  | .list items => ofItems format items
  | .plain "" => return []
  | .reference target => do
      Reading.follow
      bodyOfDatum format target
  | _ => throw .malformed

/-- Read declarations one after another. -/
def ofItems (format : Format) : List Datum → Reading (List Declaration)
  | [] => return []
  | first :: rest => do
      let declaration ← ofDatum format first
      return declaration :: (← ofItems format rest)

end

end Declaration

end MidiScore
