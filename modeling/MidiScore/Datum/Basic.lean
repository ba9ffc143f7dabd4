/-!
# Data

A datum is what a document says before anybody has decided what it means.  It is
the common ground of the formats in which scores are exchanged.  Scalars that were
written without quotes are kept as written, because their reading depends on what
is expected of them.
-/

namespace MidiScore

/-- A value of a document. -/
inductive Datum where
  /-- A text that is known to be one. -/
  | text (content : String)
  /-- A scalar without quotes, as it was written. -/
  | plain (content : String)
  | integer (value : Int)
  /-- The number `± digits · 10 ^ exponent`, written with a fraction or a power. -/
  | fraction (negative : Bool) (digits : Nat) (exponent : Int)
  | truth (value : Bool)
  | nothing
  | list (items : List Datum)
  /-- Named values in the order in which they were written. -/
  | record (fields : List (Datum × Datum))
  /-- A value that stands elsewhere in the document. -/
  | reference (target : Datum)
  /-- The place at which a broken document stops. -/
  | cut
  /-- What lies inside of too many collections.  It may be passed over. -/
  | tooDeep
  deriving Repr, Inhabited

namespace Datum

/-- A record whose names are texts. -/
def ofFields (fields : List (String × Datum)) : Datum :=
  .record (fields.map fun field => (.text field.1, field.2))

/-- A record with a single name. -/
def single (name : String) (value : Datum) : Datum :=
  .record [(.text name, value)]

mutual

/-- Whether a datum was read to its end.  References are not followed. -/
def isWhole : Datum → Bool
  | .list items => areWhole items
  | .record fields => areWholeFields fields
  | .cut => false
  | _ => true

/-- Whether all data of a list were read to their end. -/
def areWhole : List Datum → Bool
  | [] => true
  | first :: rest => isWhole first && areWhole rest

/-- Whether all fields of a record were read to their end. -/
def areWholeFields : List (Datum × Datum) → Bool
  | [] => true
  | (name, value) :: rest => isWhole name && isWhole value && areWholeFields rest

end

end Datum

end MidiScore
