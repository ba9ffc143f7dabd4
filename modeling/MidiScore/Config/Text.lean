import MidiScore.Config.Basic
import MidiScore.Meter.Text
import MidiScore.Yaml.Document

/-!
# Session defaults as text

The settings of a session are written as a YAML record.  Each may be left out, and
names that are not known are passed over.  A setting is checked against the bounds
that hold for declarations, after the whole text was read.
-/

namespace MidiScore

open Datum (Reading once readInt64 readOption readText)

namespace Config

/-- Why a text gives no settings. -/
inductive Error where
  /-- It is not a record of settings. -/
  | malformed
  | outOfRange (quantity : Quantity) (value : Int)
  | invalidMeter (text : String)
  deriving Repr, DecidableEq

/-- What all messages start with. -/
def Error.heading : String := "Invalid config"

/-- The message for a reader. -/
def Error.message : Error → String
  | .malformed => heading
  | .outOfRange quantity value => s!"{heading}: {quantity.complaint value}"
  | .invalidMeter text => s!"{heading}: Invalid time signature: {text}"

/-- Settings as they are written, each of them if it is there, and none if it is
left open. -/
structure Request where
  tempo : Option (Option Int)
  velocity : Option (Option Int)
  meter : Option (Option String)
  port : Option (Option String)
  deriving Repr, DecidableEq

namespace Request

/-- No settings. -/
def empty : Request := ⟨none, none, none, none⟩

/-- Read one setting. -/
def take (request : Request) (name : String) (value : Datum) : Reading Request := do
  match name with
  | "tempo" =>
      return { request with tempo := ← once request.tempo (readOption readInt64 value) }
  | "velocity" =>
      return { request with velocity := ← once request.velocity (readOption readInt64 value) }
  | "time-signature" =>
      return { request with meter := ← once request.meter (readOption readText value) }
  | "port" =>
      return { request with port := ← once request.port (readOption readText value) }
  | _ =>
      value.ignore
      return request

/-- Read settings. -/
def ofDatum (datum : Datum) : Reading Request :=
  (·.getD empty) <$> readOption (Datum.foldFields take empty) datum

/-- A number within the bounds of a quantity, or the standard one. -/
def number (quantity : Quantity) (standard : Int) (requested : Option (Option Int)) :
    Except Error Int :=
  let value := requested.join.getD standard
  if quantity.admits value then .ok value else .error (.outOfRange quantity value)

/-- A valid meter, or the standard one. -/
def meterOf (requested : Option (Option String)) : Except Error Meter :=
  match requested.join with
  | none => .ok standard.meter
  | some text =>
      match Meter.ofText? text with
      | some meter => .ok meter
      | none => .error (.invalidMeter text)

/-- Check settings: tempo, velocity and meter in this order. -/
def check (request : Request) : Except Error Config := do
  let tempo ← number .tempo standard.tempo.toNat request.tempo
  let velocity ← number .velocity standard.velocity.toNat request.velocity
  let meter ← meterOf request.meter
  return {
    tempo := tempo.toNat.toUInt16
    velocity := velocity.toNat.toUInt8
    meter := meter
    port := request.port.join }

end Request

/-- The settings that a text gives. -/
def ofText (text : String) : Except Error Config :=
  match (Yaml.Document.ofText text).read Request.ofDatum with
  | .ok request => request.check
  | .error _ => .error .malformed

end Config

end MidiScore
