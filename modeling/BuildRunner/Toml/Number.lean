import BuildRunner.Decimal.Numeral
import BuildRunner.Settings.Scalar
import BuildRunner.Text.Escape

/-!
# Numbers and points in time in TOML

Whole numbers are written in base ten with a sign, or in bases sixteen, eight and two without one,
and must fit 64 bits. Real numbers have a fraction or an exponent. Single underscores may stand
between digits. Dates and times must exist: a February has at most twenty-nine days.
-/

namespace BuildRunner.Toml

open Settings (Scalar)

/-- Digits behind a first one, an underscore allowed before each, and what follows them. -/
def moreDigits (isDigit : Char → Bool) : List Char → List Char × List Char
  | [] => ([], [])
  | c :: rest =>
    if c = '_' then
      match rest with
      | [] => ([], [c])
      | d :: rest =>
        if isDigit d then
          let (digits, rest) := moreDigits isDigit rest
          (d :: digits, rest)
        else ([], c :: d :: rest)
    else if isDigit c then
      let (digits, rest) := moreDigits isDigit rest
      (c :: digits, rest)
    else ([], c :: rest)

/-- At least one digit, without the underscores between them. -/
def digits? (isDigit : Char → Bool) : List Char → Option (List Char × List Char)
  | c :: rest =>
    if isDigit c then
      let (digits, rest) := moreDigits isDigit rest
      some (c :: digits, rest)
    else none
  | [] => none

/-- Decimal digits of which the first is zero only when it stands alone. -/
def wholeDigits? : List Char → Option (List Char × List Char)
  | '0' :: rest => some (['0'], rest)
  | cs => digits? Char.isDigit cs

/-- A digit below `base`. -/
def isDigitOf (base : Nat) (c : Char) : Bool :=
  (Text.hexValue? c).any (· < base)

/-- A number in another base than ten, behind the letter that gives the base. -/
def baseNumber? (base : Nat) (cs : List Char) : Option (Scalar × List Char) := do
  let (digits, rest) ← digits? (isDigitOf base) cs
  let number := digits.foldl (fun number c => number * base + (Text.hexValue? c).getD 0) 0
  if number < Nat.pow 2 63 then some (.signed number, rest) else none

/-- The fraction behind the point of a number. -/
def fraction? : List Char → Option (List Char × List Char)
  | '.' :: rest => (digits? Char.isDigit rest).map fun (digits, rest) => ('.' :: digits, rest)
  | cs => some ([], cs)

/-- The exponent of a number. -/
def exponent? : List Char → Option (List Char × List Char)
  | e :: rest =>
    if e = 'e' || e = 'E' then
      let (negative, rest) := Decimal.takeSign rest
      (digits? Char.isDigit rest).map fun (digits, rest) =>
        ('e' :: (if negative then '-' :: digits else digits), rest)
    else some ([], e :: rest)
  | [] => some ([], [])

/-- A number in base ten. A real number that is too great is refused, one that is too small is
not. -/
def decimal? (cs : List Char) : Option (Scalar × List Char) := do
  let (negative, unsigned) := Decimal.takeSign cs
  match unsigned with
  | 'i' :: 'n' :: 'f' :: rest => some (.real (.infinite negative), rest)
  | 'n' :: 'a' :: 'n' :: rest => some (.real .nan, rest)
  | _ =>
    let (whole, rest) ← wholeDigits? unsigned
    let (fraction, rest) ← fraction? rest
    let (exponent, rest) ← exponent? rest
    if fraction = [] && exponent = [] then
      let number : Int := Decimal.digitsValue whole
      let number := if negative then -number else number
      let bound : Int := Nat.pow 2 63
      if -bound ≤ number && number < bound then some (.signed number, rest) else none
    else
      let sign := if negative then ['-'] else []
      match ← Decimal.Binary64.ofNumeral? (sign ++ whole ++ fraction ++ exponent) with
      | .infinite false => none
      | real => some (.real real, rest)

/-- A number. -/
def number? : List Char → Option (Scalar × List Char)
  | '0' :: 'x' :: rest => baseNumber? 16 rest
  | '0' :: 'o' :: rest => baseNumber? 8 rest
  | '0' :: 'b' :: rest => baseNumber? 2 rest
  | cs => decimal? cs

/-- A number of exactly so many digits, between `least` and `greatest`. -/
def field? (count least greatest : Nat) (cs : List Char) : Option (Nat × List Char) :=
  let digits := cs.take count
  if digits.length = count && digits.all Char.isDigit then
    let number := Decimal.digitsValue digits
    if least ≤ number && number ≤ greatest then some (number, cs.drop count) else none
  else none

/-- What follows the given character. -/
def behind? (c : Char) : List Char → Option (List Char)
  | d :: rest => if d = c then some rest else none
  | [] => none

/-- How many days a month has. -/
def daysIn (year month : Nat) : Nat :=
  if month = 2 then
    if year % 4 = 0 && (year % 100 ≠ 0 || year % 400 = 0) then 29 else 28
  else if [4, 6, 9, 11].contains month then 30
  else 31

/-- What follows a date. -/
def date? (cs : List Char) : Option (List Char) := do
  let (year, rest) ← field? 4 0 9999 cs
  let (month, rest) ← field? 2 1 12 (← behind? '-' rest)
  let (_, rest) ← field? 2 1 (daysIn year month) (← behind? '-' rest)
  return rest

/-- What follows a fraction of a second, which may be missing. -/
def skipFraction : List Char → List Char
  | '.' :: rest =>
    if (rest.head?).any Char.isDigit then rest.dropWhile Char.isDigit else '.' :: rest
  | cs => cs

/-- What follows a time of day. A minute may have a leap second. -/
def time? (cs : List Char) : Option (List Char) := do
  let (_, rest) ← field? 2 0 23 cs
  let (_, rest) ← field? 2 0 59 (← behind? ':' rest)
  let (_, rest) ← field? 2 0 60 (← behind? ':' rest)
  return skipFraction rest

/-- What follows hours and minutes. -/
def hoursAndMinutes? (cs : List Char) : Option (List Char) := do
  let (_, rest) ← field? 2 0 23 cs
  let (_, rest) ← field? 2 0 59 (← behind? ':' rest)
  return rest

/-- What follows the distance of a time of day from universal time. -/
def offset? : List Char → Option (List Char)
  | 'Z' :: rest => some rest
  | 'z' :: rest => some rest
  | '+' :: rest => hoursAndMinutes? rest
  | '-' :: rest => hoursAndMinutes? rest
  | _ => none

/-- What follows the time of day behind a date, with its offset, where one stands there. -/
def skipTime (cs : List Char) : List Char :=
  match cs with
  | c :: rest =>
    if c = 'T' || c = 't' || c = ' ' then
      match time? rest with
      | some rest => (offset? rest).getD rest
      | none => cs
    else cs
  | [] => cs

/-- What follows a point in time: a date, perhaps with a time of day, or a time of day. -/
def moment? (cs : List Char) : Option (List Char) :=
  match date? cs with
  | some rest => some (skipTime rest)
  | none => time? cs

end BuildRunner.Toml
