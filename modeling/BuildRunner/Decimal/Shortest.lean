import BuildRunner.Decimal.Binary64

/-!
# Shortest decimal text of a binary number

The fewest decimal digits that round back to a binary number, the nearest of those when several
do, and their positional notation: no exponent, no fraction when the number is whole.
-/

namespace BuildRunner.Decimal

/-- The reals that round to a positive finite number, as numerators over one denominator: those
between `low` and `high`, the ends included when `closed`. -/
structure RoundingInterval where
  low : Nat
  value : Nat
  high : Nat
  denominator : Nat
  closed : Bool
  deriving Repr

namespace RoundingInterval

/-- The reals that round to `significand * 2 ^ exponent`. Below a power of two the neighbour is
half as far away as above it, except at the least exponent. -/
def ofParts (significand : Nat) (exponent : Int) : RoundingInterval :=
  let below := if significand = Nat.pow 2 52 ∧ Binary64.leastExponent < exponent then 1 else 2
  let quarter := exponent - 2
  let factor := if quarter < 0 then 1 else Nat.pow 2 quarter.toNat
  let denominator := if quarter < 0 then Nat.pow 2 (-quarter).toNat else 1
  { low := (4 * significand - below) * factor
    value := 4 * significand * factor
    high := (4 * significand + 2) * factor
    denominator
    closed := significand % 2 = 0 }

/-- Whether the fraction `num / den` lies in the interval. -/
def holds (interval : RoundingInterval) (num den : Nat) : Bool :=
  let point := num * interval.denominator
  let low := interval.low * den
  let high := interval.high * den
  if interval.closed then low ≤ point && point ≤ high else low < point && point < high

end RoundingInterval

/-- How many powers of ten lie between the fraction `num / den`, below one, and one; `fuel` bounds
the count. -/
def leadingZeros : Nat → Nat → Nat → Nat
  | 0, _, _ => 0
  | fuel + 1, num, den => if num * 10 < den then leadingZeros fuel (num * 10) den + 1 else 0

/-- The least `k` with `num / den < 10 ^ k`, for a positive fraction. -/
def decimalOrder (num den : Nat) : Int :=
  if den ≤ num then (Nat.toDigits 10 (num / den)).length else -(leadingZeros 400 num den : Int)

/-- `digits * 10 ^ exponent` as a fraction. -/
def powerFraction (digits : Nat) (exponent : Int) : Nat × Nat :=
  if exponent < 0 then (digits, Nat.pow 10 (-exponent).toNat)
  else (digits * Nat.pow 10 exponent.toNat, 1)

/-- The multiple of `10 ^ exponent` in the interval that is nearest to its value, if there is one
among the two neighbours of the value: the digits in front of that power. -/
def onGrid (interval : RoundingInterval) (exponent : Int) : Option Nat :=
  let (gridNum, gridDen) := powerFraction 1 exponent
  let under := interval.value * gridDen / (interval.denominator * gridNum)
  let inside (digits : Nat) : Bool :=
    let (num, den) := powerFraction digits exponent
    interval.holds num den
  let twice := 2 * interval.value * gridDen
  let middle := (2 * under + 1) * (interval.denominator * gridNum)
  match inside under, inside (under + 1) with
  | true, true => some (if middle < twice then under + 1 else under)
  | true, false => some under
  | false, true => some (under + 1)
  | false, false => none

/-- The first grid among `count` ever finer ones that has a point in the interval: the digits and
their power of ten. -/
def finerGrid (interval : RoundingInterval) : Nat → Int → Option (Nat × Int)
  | 0, _ => none
  | count + 1, exponent =>
    match onGrid interval exponent with
    | some digits => some (digits, exponent)
    | none => finerGrid interval count (exponent - 1)

/-- The fewest digits that round back to `significand * 2 ^ exponent`, and their power of ten.
Seventeen digits always suffice; without a hit the exact value is given. -/
def shortest (significand : Nat) (exponent : Int) : Nat × Int :=
  let interval := RoundingInterval.ofParts significand exponent
  let order := decimalOrder interval.value interval.denominator
  match finerGrid interval 17 (order - 1) with
  | some found => found
  | none =>
    if exponent < 0 then (significand * Nat.pow 5 (-exponent).toNat, exponent)
    else (significand * Nat.pow 2 exponent.toNat, 0)

/-- `digits * 10 ^ exponent` in positional notation, without zeros that end a fraction. -/
def positional (digits : Nat) (exponent : Int) : List Char :=
  let text := Nat.toDigits 10 digits
  if 0 ≤ exponent then text ++ List.replicate exponent.toNat '0'
  else
    let places := (-exponent).toNat
    let padded := List.replicate (places + 1 - text.length) '0' ++ text
    let whole := padded.take (padded.length - places)
    let fraction := (padded.drop (padded.length - places)).reverse.dropWhile (· = '0')
    if fraction.isEmpty then whole else whole ++ '.' :: fraction.reverse

/-- The text of a number: its sign, and its shortest digits in positional notation. -/
def Binary64.text : Binary64 → String
  | .nan => "NaN"
  | .infinite negative => if negative then "-inf" else "inf"
  | .finite negative significand exponent =>
    let magnitude :=
      if significand = 0 then ['0']
      else
        let (digits, power) := shortest significand exponent
        positional digits power
    String.ofList (if negative then '-' :: magnitude else magnitude)

end BuildRunner.Decimal
