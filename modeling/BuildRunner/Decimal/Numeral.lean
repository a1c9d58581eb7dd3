import BuildRunner.Decimal.Binary64

/-!
# Decimal numerals

A numeral has a sign or none, digits with at most one point among, before or behind them, and may
end in an exponent. It stands for the nearest binary number.
-/

namespace BuildRunner.Decimal

/-- The number that decimal digits stand for. -/
def digitsValue (digits : List Char) : Nat :=
  digits.foldl (fun number c => number * 10 + (c.toNat - '0'.toNat)) 0

/-- A text without a sign in front, and whether that was a minus. -/
def takeSign : List Char → Bool × List Char
  | '-' :: rest => (true, rest)
  | '+' :: rest => (false, rest)
  | cs => (false, cs)

/-- The number of a text that holds digits only, and at least one. -/
def natural? (cs : List Char) : Option Nat :=
  if cs ≠ [] && cs.all Char.isDigit then some (digitsValue cs) else none

/-- The value of an exponent as it stands behind a numeral, zero where there is none. -/
def exponent? : List Char → Option Int
  | [] => some 0
  | e :: rest =>
    if e = 'e' || e = 'E' then
      let (negative, digits) := takeSign rest
      (natural? digits).map fun (n : Nat) => if negative then -(n : Int) else n
    else none

/-- The binary number nearest to the one a numeral stands for. -/
def Binary64.ofNumeral? (cs : List Char) : Option Binary64 := do
  let (negative, cs) := takeSign cs
  let whole := cs.takeWhile Char.isDigit
  let rest := cs.dropWhile Char.isDigit
  let (fraction, rest) :=
    match rest with
    | '.' :: rest => (rest.takeWhile Char.isDigit, rest.dropWhile Char.isDigit)
    | _ => ([], rest)
  if whole = [] && fraction = [] then none
  let exponent ← exponent? rest
  return .ofDecimal negative (digitsValue (whole ++ fraction)) (exponent - fraction.length)

end BuildRunner.Decimal
