import MidiScore.Datum.Reading
import MidiScore.Text.Numeral

/-!
# Reading data

Readers turn a datum into the value that is expected at its place.  They go
through a document in order, so the first fault of a document is the one that is
given.  A datum of the wrong shape is malformed; a property list of the right
shape may still be invalid, and then the reason is kept.

A scalar without quotes is a number only where a number is expected; elsewhere it
is the text that was written.
-/

namespace MidiScore.Datum

/-- A scalar as text. -/
def readText (datum : Datum) : Reading String := do
  match ← reach datum with
  | .text content | .plain content => return content
  | _ => throw .malformed

/-- A text of exactly one character. -/
def readChar (datum : Datum) : Reading Char := do
  match (← readText datum).toList with
  | [c] => return c
  | _ => throw .malformed

/-- The bases of numerals that a prefix announces. -/
def markedBases : List (Char × Nat) := [('x', 16), ('o', 8), ('b', 2)]

/-- A numeral with a prefix for its base. -/
def markedNumeral? : List Char → Option Nat
  | '0' :: mark :: digits => do Text.natural? (← markedBases.lookup mark) digits
  | _ => none

/-- A decimal numeral.  One that starts with a zero is not a number, except for
zero itself. -/
def decimalNumeral? (digits : List Char) : Option Nat :=
  if 1 < digits.length && digits.head? == some '0' then none else Text.natural? 10 digits

/-- A numeral without sign. -/
def numeral? (cs : List Char) : Option Nat :=
  (markedNumeral? cs).or (decimalNumeral? cs)

/-- A number with an optional sign, as scalars without quotes write it. -/
def signedNumeral? : List Char → Option Int
  | '-' :: rest => (numeral? rest).map fun size => -(size : Int)
  | '+' :: rest => (numeral? rest).map fun size => (size : Int)
  | cs => (numeral? cs).map fun size => (size : Int)

/-- A number without a minus sign, as scalars without quotes write it. -/
def unsignedNumeral? : List Char → Option Nat
  | '+' :: rest => numeral? rest
  | cs => numeral? cs

/-- The natural number that a datum is. -/
def natural? : Datum → Option Nat
  | .integer value => if 0 ≤ value then some value.toNat else none
  | .plain content => unsignedNumeral? content.toList
  | _ => none

/-- The whole number that a datum is. -/
def whole? : Datum → Option Int
  | .integer value => some value
  | .plain content => signedNumeral? content.toList
  | _ => none

/-- A natural number up to a limit. -/
def readNat (limit : Nat) (datum : Datum) : Reading Nat := do
  match (← reach datum).natural? with
  | some value => if value ≤ limit then return value else throw .malformed
  | none => throw .malformed

/-- A whole number between two limits. -/
def readInt (least greatest : Int) (datum : Datum) : Reading Int := do
  match (← reach datum).whole? with
  | some value => if least ≤ value ∧ value ≤ greatest then return value else throw .malformed
  | none => throw .malformed

/-- A number of 8 bits. -/
def readUInt8 (datum : Datum) : Reading UInt8 :=
  Nat.toUInt8 <$> readNat 0xFF datum

/-- A number of 16 bits. -/
def readUInt16 (datum : Datum) : Reading UInt16 :=
  Nat.toUInt16 <$> readNat 0xFFFF datum

/-- A natural number of 32 bits. -/
def readNat32 : Datum → Reading Nat :=
  readNat 0xFFFFFFFF

/-- A signed number of 8 bits. -/
def readInt8 (datum : Datum) : Reading Int8 :=
  Int.toInt8 <$> readInt (-0x80) 0x7F datum

/-- A whole number of 64 bits. -/
def readInt64 : Datum → Reading Int :=
  readInt (-0x8000000000000000) 0x7FFFFFFFFFFFFFFF

/-- A truth value. -/
def readBool (datum : Datum) : Reading Bool := do
  match ← reach datum with
  | .truth value => return value
  | _ => throw .malformed

/-- The items of a list; a scalar that was left out is an empty list. -/
def readItems (datum : Datum) : Reading (List Datum) := do
  match ← reach datum with
  | .list items => return items
  | .plain "" => return []
  | _ => throw .malformed

/-- The fields of a record; a scalar that was left out has none. -/
def readFields (datum : Datum) : Reading (List (Datum × Datum)) := do
  match ← reach datum with
  | .record fields => return fields
  | .plain "" => return []
  | _ => throw .malformed

/-- The values of a list, each read in turn. -/
def readList {α : Type} (read : Datum → Reading α) (datum : Datum) : Reading (List α) := do
  (← readItems datum).mapM read

/-- Whether a value was left out or is one of the spellings of none. -/
def isNone : Datum → Bool
  | .nothing => true
  | .plain content => ["", "~", "null", "Null", "NULL"].contains content
  | _ => false

/-- A value that may be none. -/
def readOption {α : Type} (read : Datum → Reading α) (datum : Datum) : Reading (Option α) := do
  let value ← reach datum
  if value.isNone then return none else some <$> read value

/-- Pass over a value that nobody asked for. -/
def ignore (datum : Datum) : Reading Unit :=
  if datum.isWhole then return () else throw .malformed

/-- Keep a value that may be given once. -/
def once {α : Type} (slot : Option α) (value : Reading α) : Reading (Option α) :=
  if slot.isSome then throw .malformed else some <$> value

/-- A value that must be given. -/
def required {α : Type} : Option α → Reading α
  | some value => return value
  | none => throw .malformed

/-- Go through the fields of a record in order.  `take` is given the name and the
value of each field. -/
def foldFields {σ : Type} (take : σ → String → Datum → Reading σ) (start : σ)
    (datum : Datum) : Reading σ := do
  (← readFields datum).foldlM (fun state field => do take state (← readText field.1) field.2) start

/-! ## Choices

A choice is a record with a single name that says what was chosen. -/

/-- The name of a choice.  Names beside it are noticed before its content is read
only if the document is known as a whole. -/
def readChoice (format : Format) (name : Datum) (others : List (Datum × Datum)) :
    Reading String :=
  if format = .json ∧ others ≠ [] then throw .malformed else readText name

/-- Make sure that nothing stands beside what was read. -/
def alone {α : Type} (others : List α) : Reading Unit :=
  if others.isEmpty then return () else throw .malformed

/-- The value of a name that takes no content, or of which the content is nothing. -/
def bare {α : Type} (value? : Option α) : Datum → Reading α
  | .nothing => required value?
  | _ => throw .malformed

end MidiScore.Datum
