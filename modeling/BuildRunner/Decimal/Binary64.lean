/-!
# Binary numbers of 64 bits

A number that 64 bits can hold in the binary format with 53 significant bits: not a number, an
infinity, or a signed significand times a power of two. A fraction is rounded to the nearest such
number in exact arithmetic on natural numbers, a tie going to the even significand.

A finite number is stored in one form only: its exponent is the least the format has, or its
significand has all 53 bits.
-/

namespace BuildRunner.Decimal

/-- A number of the 64-bit binary format. -/
inductive Binary64 where
  | nan
  | infinite (negative : Bool)
  /-- The magnitude is `significand * 2 ^ exponent`. -/
  | finite (negative : Bool) (significand : Nat) (exponent : Int)
  deriving DecidableEq, Repr

namespace Binary64

/-- The least exponent of the format. -/
def leastExponent : Int := -1074

/-- The greatest exponent of the format. -/
def greatestExponent : Int := 971

/-- `num / den` rounded to the nearest natural number, a tie to the even one. -/
def nearest (num den : Nat) : Nat :=
  let quotient := num / den
  let twice := 2 * (num % den)
  if twice < den then quotient
  else if den < twice then quotient + 1
  else quotient + quotient % 2

/-- The fraction `num / den` divided by `2 ^ exponent`, as a fraction. -/
def scaled (num den : Nat) (exponent : Int) : Nat × Nat :=
  if exponent < 0 then (num * Nat.pow 2 (-exponent).toNat, den)
  else (num, den * Nat.pow 2 exponent.toNat)

/-- The exponent of the highest binary digit of the fraction `num / den`, both positive. -/
def binaryOrder (num den : Nat) : Int :=
  let estimate : Int := num.log2 - den.log2
  let (n, d) := scaled num den estimate
  if n < d then estimate - 1 else estimate

/-- The number nearest to the fraction `num / den`, of the given sign. -/
def ofFraction (negative : Bool) (num den : Nat) : Binary64 :=
  if num = 0 then finite negative 0 leastExponent
  else
    let exponent := max leastExponent (binaryOrder num den - 52)
    let (n, d) := scaled num den exponent
    let significand := nearest n d
    let (significand, exponent) :=
      if significand = Nat.pow 2 53 then (Nat.pow 2 52, exponent + 1)
      else (significand, exponent)
    if greatestExponent < exponent then infinite negative else finite negative significand exponent

/-- The number nearest to `digits * 10 ^ exponent`, of the given sign. Beyond the format's range
no power of ten is computed. -/
def ofDecimal (negative : Bool) (digits : Nat) (exponent : Int) : Binary64 :=
  let order : Int := (Nat.toDigits 10 digits).length + exponent
  if digits = 0 ∨ order < -330 then finite negative 0 leastExponent
  else if 310 < order then infinite negative
  else if exponent < 0 then ofFraction negative digits (Nat.pow 10 (-exponent).toNat)
  else ofFraction negative (digits * Nat.pow 10 exponent.toNat) 1

end Binary64

end BuildRunner.Decimal
