import MidiScore.Datum.Reader

/-!
# Records of a few fields

Readers of records whose fields may stand in any order.  Each field must be given
once, and fields of other names are passed over.
-/

namespace MidiScore.Datum

/-- What was read so far of two fields. -/
abbrev Fields (α β : Type) : Type := Option α × Option β

namespace Fields

/-- Read a field if it has one of two names, and pass over it otherwise. -/
def take {α β : Type} (first : String) (readFirst : Datum → Reading α) (second : String)
    (readSecond : Datum → Reading β) (fields : Fields α β) (name : String) (value : Datum) :
    Reading (Fields α β) := do
  if name = first then return (← once fields.1 (readFirst value), fields.2)
  else if name = second then return (fields.1, ← once fields.2 (readSecond value))
  else
    value.ignore
    return fields

/-- Both fields, which must be given. -/
def both {α β : Type} (fields : Fields α β) : Reading (α × β) := do
  return (← required fields.1, ← required fields.2)

end Fields

/-- Read a record of two fields. -/
def readTwo {α β : Type} (first : String) (readFirst : Datum → Reading α) (second : String)
    (readSecond : Datum → Reading β) (datum : Datum) : Reading (α × β) := do
  (← datum.foldFields (Fields.take first readFirst second readSecond) (none, none)).both

/-- Read a record of three fields. -/
def readThree {α β γ : Type} (first : String) (readFirst : Datum → Reading α)
    (second : String) (readSecond : Datum → Reading β) (third : String)
    (readThird : Datum → Reading γ) (datum : Datum) : Reading (α × β × γ) := do
  let take (read : Option α × Fields β γ) (name : String) (value : Datum) :
      Reading (Option α × Fields β γ) := do
    if name = first then return (← once read.1 (readFirst value), read.2)
    else return (read.1, ← read.2.take second readSecond third readThird name value)
  let read ← datum.foldFields take (none, none, none)
  let value ← required read.1
  return (value, ← read.2.both)

end MidiScore.Datum
