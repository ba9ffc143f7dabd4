import MidiScore.Bar
import MidiScore.Declaration
import MidiScore.KeyMap

/-!
# Bars under construction

Declarations that may stand in a bar body are evaluated into a draft: the bar so
far, the scope they set, and the key signatures they leave behind.  Every note
list starts at the beginning of the bar, so several lists sound together, and
each must fit into the bar under the meter then in force.
-/

namespace MidiScore

/-- The settings that declarations change for those that follow. -/
structure Scope where
  channel : UInt8
  velocity : UInt8
  meter : Meter
  deriving Repr, DecidableEq

/-- The scales declared for channels, the latest first. -/
abbrev Signatures : Type := List (UInt8 × Scale)

namespace Signatures

/-- The scale of a channel, C major when none was declared. -/
def scale (signatures : Signatures) (channel : UInt8) : Scale :=
  (signatures.lookup channel).getD .cMajor

end Signatures

/-- Refuse a number that is out of bounds. -/
def Quantity.check (quantity : Quantity) (value : Int) : Except Error Unit :=
  if quantity.admits value then .ok () else .error (.outOfRange quantity value)

namespace Note

/-- The key that a note sounds on a channel, its accidentals and the scale of the
channel applied. -/
def resolve (note : Note) (keys : KeyMap) (scale : Scale) (channel : UInt8) :
    Except Error UInt8 :=
  match keys.get? channel note.name with
  | none => .error (.undefinedNote note.name channel)
  | some key =>
      if Scale.isBlackKey key && (note.properties.has .sharp || note.properties.has .flat) then
        .error (.accidentalOnBlackKey note.name key channel)
      else do
        let sounding := scale.apply key note
        Quantity.check .key sounding
        return sounding.toNat.toUInt8

/-- The events of a sounding note at a position: it is struck, and released after
its sounding length unless it rings out. -/
def events (note : Note) (key velocity channel : UInt8) (position : Nat) : List Event :=
  let struck : Event :=
    { message := .voice channel (.noteOn key velocity)
      position := position
      duration := note.soundingLength
      channel := channel }
  let released : Event :=
    { message := .voice channel (.noteOff key)
      position := position + note.soundingLength
      duration := 0
      channel := channel }
  if note.ringsOut then [struck] else [struck, released]

/-- The events that a note puts at the cursor.  A rest puts none. -/
def eventsAt (note : Note) (keys : KeyMap) (scale : Scale) (scope : Scope) (cursor : UInt32) :
    Except Error (List Event) :=
  if note.isRest then .ok []
  else do
    let key ← note.resolve keys scale scope.channel
    let velocity ← Error.orOverflow (note.velocity? scope.velocity)
    return note.events key velocity scope.channel cursor.toNat

/-- The cursor after a note. -/
def moveCursor (note : Note) (cursor : UInt32) : Except Error UInt32 :=
  Error.orOverflow (word? (cursor.toNat + note.length))

/-- The events of notes one after another from a cursor, and the cursor after them. -/
def sequenceEvents (keys : KeyMap) (scale : Scale) (scope : Scope) (cursor : UInt32) :
    List Note → Except Error (List Event × UInt32)
  | [] => .ok ([], cursor)
  | note :: rest => do
      let events ← note.eventsAt keys scale scope cursor
      let next ← note.moveCursor cursor
      let (later, last) ← sequenceEvents keys scale scope next rest
      return (events ++ later, last)

end Note

/-- A bar under construction, with what its declarations have set. -/
structure Draft where
  scope : Scope
  signatures : Signatures
  bar : Bar
  /-- Whether a note or a rest has taken up time. -/
  advanced : Bool
  deriving Repr, DecidableEq

namespace Draft

/-- An empty bar under the meter in force. -/
def start (scope : Scope) (signatures : Signatures) : Draft :=
  ⟨scope, signatures, ⟨scope.meter, []⟩, false⟩

/-- The draft with a message at the start of the bar. -/
def push (draft : Draft) (message : Message) : Draft :=
  { draft with bar.events := draft.bar.events ++ [⟨message, 0, 0, draft.scope.channel⟩] }

/-- The draft with notes from the start of the bar. -/
def addNotes (keys : KeyMap) (draft : Draft) (notes : List Note) : Except Error Draft := do
  let scale := draft.signatures.scale draft.scope.channel
  let (events, cursor) ← Note.sequenceEvents keys scale draft.scope 0 notes
  if draft.bar.capacity < cursor.toNat then
    throw (.barOverflow (cursor.toNat - draft.bar.capacity) draft.bar.meter)
  return { draft with
    bar.events := draft.bar.events ++ events
    advanced := draft.advanced || 0 < cursor }

/-- Evaluate one declaration of a bar.  Those that act on the whole session are
forbidden. -/
def step (keys : KeyMap) (draft : Draft) (declaration : Declaration) : Except Error Draft :=
  match declaration with
  | .assign _ _ | .defineBar _ _ | .play _ => .error (.forbiddenInBar declaration.command)
  | .tempo bpm => do
      Quantity.check .tempo bpm.toNat
      return draft.push (.tempo bpm)
  | .timeSignature meter =>
      if meter.isValid then
        .ok { draft with bar.meter := meter, scope.meter := meter }
      else
        .error (.invalidMeter meter)
  | .velocity value => do
      Quantity.check .velocity value.toNat
      return { draft with scope.velocity := value }
  | .channel number => do
      Quantity.check .channel number.toNat
      return { draft with scope.channel := number }
  | .program number => do
      Quantity.check .program number.toNat
      return draft.push (.voice draft.scope.channel (.programChange number))
  | .control number value => do
      Quantity.check .control number.toNat
      Quantity.check .controlValue value.toNat
      return draft.push (.voice draft.scope.channel (.controlChange number value))
  | .start => .ok (draft.push .start)
  | .stop => .ok (draft.push .stop)
  | .key name =>
      match Scale.ofName? name with
      | none => .error (.unknownScale name)
      | some scale =>
          .ok { draft.push (.keySignature draft.scope.channel scale) with
            signatures := (draft.scope.channel, scale) :: draft.signatures }
  | .text content => .ok (draft.push (.text content))
  | .notes list => draft.addNotes keys list

/-- Evaluate the declarations of a bar in order. -/
def steps (keys : KeyMap) (draft : Draft) : List Declaration → Except Error Draft
  | [] => .ok draft
  | declaration :: rest => do
      let next ← draft.step keys declaration
      next.steps keys rest

/-- The finished bar, unless nothing happened in it. -/
def finish (draft : Draft) : Option Bar :=
  if draft.bar.events.isEmpty && !draft.advanced then none else some draft.bar

end Draft

end MidiScore
