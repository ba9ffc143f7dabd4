/-!
# Numerals

Unsigned whole numbers written in ASCII digits of a base up to sixteen.
-/

namespace MidiScore.Text

/-- The value of a digit, letters counting on from nine in either case. -/
def digitValue? (c : Char) : Option Nat :=
  if '0' ≤ c ∧ c ≤ '9' then some (c.toNat - '0'.toNat)
  else if 'a' ≤ c ∧ c ≤ 'f' then some (c.toNat - 'a'.toNat + 10)
  else if 'A' ≤ c ∧ c ≤ 'F' then some (c.toNat - 'A'.toNat + 10)
  else none

/-- Whether a character is a digit of the base. -/
def isDigitOf (base : Nat) (c : Char) : Bool :=
  (digitValue? c).any (· < base)

/-- The number that digits spell out after those that gave `start`. -/
def digitsValue (base start : Nat) (cs : List Char) : Nat :=
  cs.foldl (fun value c => value * base + (digitValue? c).getD 0) start

/-- The number that one or more digits of the base spell out. -/
def natural? (base : Nat) (cs : List Char) : Option Nat :=
  if !cs.isEmpty && cs.all (isDigitOf base) then some (digitsValue base 0 cs) else none

/-- The lower-case digit of a value below sixteen. -/
def hexDigit (value : Nat) : Char :=
  (Nat.digitChar value)

/-- The digits of a number in base sixteen, without leading zeros. -/
def hexadecimal (value : Nat) : String :=
  String.ofList (Nat.toDigits 16 value)

/-- The two digits of a byte in base sixteen. -/
def hexByte (byte : UInt8) : List Char :=
  [hexDigit (byte.toNat / 16), hexDigit (byte.toNat % 16)]

end MidiScore.Text
