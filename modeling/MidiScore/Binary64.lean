/-!
# Binary64 arithmetic on exact significands

A number of the IEEE 754 binary64 format is a sign, a significand of at most 53
bits and a power of two, or an infinity, or not a number.  Here the exponent has
no bounds: every result that the format would round to zero or to an infinity
still has its true size, so rounding to a whole number within 64 bits gives the
same answer.

Every operation rounds one exact fraction to the nearest significand, a tie
going to the even one.
-/

namespace MidiScore

-- Powers are those of core, also where algebra is in scope.
attribute [local instance (high)] instPowNat

/-- A number, `± significand · 2 ^ exponent` when it is finite. -/
inductive Binary64 where
  | nan
  | infinite (negative : Bool)
  | finite (negative : Bool) (significand : Nat) (exponent : Int)
  deriving Repr, DecidableEq

namespace Binary64

/-- Bits of a significand. -/
def precision : Nat := 53

/-- The quotient of two naturals rounded to the nearest natural, ties to even. -/
def roundQuotient (numerator denominator : Nat) : Nat :=
  let quotient := numerator / denominator
  let twice := 2 * (numerator % denominator)
  if denominator < twice || (twice == denominator && quotient % 2 == 1) then
    quotient + 1
  else
    quotient

/-- The power of two `k` with `2 ^ k ≤ numerator / denominator < 2 ^ (k + 1)`,
for positive numbers. -/
def logQuotient (numerator denominator : Nat) : Int :=
  let upper := numerator.log2
  let lower := denominator.log2
  let guess := (upper : Int) - lower
  if denominator * 2 ^ (upper - lower) ≤ numerator * 2 ^ (lower - upper) then guess
  else guess - 1

/-- The number nearest to `± numerator / denominator · 2 ^ shift`. -/
def ofQuotient (negative : Bool) (numerator denominator : Nat) (shift : Int) : Binary64 :=
  if numerator = 0 then .finite negative 0 0
  else
    let exponent := logQuotient numerator denominator - (precision - 1)
    let significand :=
      roundQuotient (numerator * 2 ^ (-exponent).toNat) (denominator * 2 ^ exponent.toNat)
    .finite negative significand (exponent + shift)

/-- The number nearest to a natural. -/
def ofNat (n : Nat) : Binary64 :=
  ofQuotient false n 1 0

/-- Product; an infinity times zero is not a number. -/
def mul : Binary64 → Binary64 → Binary64
  | .nan, _ => .nan
  | _, .nan => .nan
  | .infinite left, .infinite right => .infinite (left != right)
  | .infinite left, .finite right significand _ =>
      if significand = 0 then .nan else .infinite (left != right)
  | .finite left significand _, .infinite right =>
      if significand = 0 then .nan else .infinite (left != right)
  | .finite left m e, .finite right n f =>
      ofQuotient (left != right) (m * n) 1 (e + f)

/-- Quotient; zero by zero and an infinity by an infinity are not a number. -/
def div : Binary64 → Binary64 → Binary64
  | .nan, _ => .nan
  | _, .nan => .nan
  | .infinite _, .infinite _ => .nan
  | .infinite left, .finite right _ _ => .infinite (left != right)
  | .finite left _ _, .infinite right => .finite (left != right) 0 0
  | .finite left m e, .finite right n f =>
      if n = 0 then
        if m = 0 then .nan else .infinite (left != right)
      else
        ofQuotient (left != right) m n (e - f)

instance : Mul Binary64 := ⟨mul⟩

instance : Div Binary64 := ⟨div⟩

/-- The leading digits of a number, as far as they fit 64 bits, and how many others
there are. -/
def leadingDigits (digits : Nat) : Nat × Nat :=
  if digits < 2 ^ (64 : Nat) then (digits, 0)
  else
    let (leading, dropped) := leadingDigits (digits / 10)
    (leading, dropped + 1)

/-- The number that `± digits · 10 ^ exponent` is read as.  The leading digits and the
power of ten are rounded before they are multiplied or divided, so a numeral of more
than 15 digits need not give the nearest number. -/
def ofDecimal (negative : Bool) (digits : Nat) (exponent : Int) : Binary64 :=
  let (leading, dropped) := leadingDigits digits
  let exponent := exponent + dropped
  let significand := ofQuotient negative leading 1 0
  let power := ofNat (10 ^ exponent.natAbs)
  if 0 ≤ exponent then significand * power else significand / power

/-- The whole number nearest to `significand · 2 ^ exponent`, a half upwards. -/
def roundMagnitude (significand : Nat) (exponent : Int) : Nat :=
  let divisor := 2 ^ (-exponent).toNat
  (2 * significand * 2 ^ exponent.toNat + divisor) / (2 * divisor)

/-- Least number of 64 signed bits. -/
def int64Min : Int := -(2 ^ (63 : Nat))

/-- Greatest number of 64 signed bits. -/
def int64Max : Int := 2 ^ (63 : Nat) - 1

/-- The nearest whole number, a half away from zero, held within 64 signed bits.
What is not a number becomes zero. -/
def toInt64 : Binary64 → Int
  | .nan => 0
  | .infinite true => int64Min
  | .infinite false => int64Max
  | .finite true significand exponent =>
      max int64Min (-(roundMagnitude significand exponent : Int))
  | .finite false significand exponent =>
      min int64Max (roundMagnitude significand exponent)

end Binary64

end MidiScore
