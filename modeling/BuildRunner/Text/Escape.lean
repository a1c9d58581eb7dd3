/-!
# Escapes in double quotes

In a text between double quotes a backslash stands for a character together with what follows it: a
letter for the usual control characters, or four or eight hexadecimal digits behind `u` or `U` for
the character with that code point. A quote behind a backslash does not end the text.
-/

namespace BuildRunner.Text

/-- The value of a hexadecimal digit. -/
def hexValue? (c : Char) : Option Nat :=
  if '0' ≤ c && c ≤ '9' then some (c.toNat - '0'.toNat)
  else if 'a' ≤ c && c ≤ 'f' then some (c.toNat - 'a'.toNat + 10)
  else if 'A' ≤ c && c ≤ 'F' then some (c.toNat - 'A'.toNat + 10)
  else none

/-- The number that hexadecimal digits stand for. -/
def hexNumber? (digits : List Char) : Option Nat :=
  digits.foldlM (fun number c => (hexValue? c).map (number * 16 + ·)) 0

/-- The character whose code point hexadecimal digits give. -/
def characterOf? (digits : List Char) : Option Char := do
  let code ← hexNumber? digits
  if code.isValidChar then some (Char.ofNat code) else none

/-- The character that a letter behind a backslash stands for. -/
def escaped? : Char → Option Char
  | '"' => some '"'
  | '\\' => some '\\'
  | 'b' => some '\x08'
  | 'f' => some '\x0c'
  | 'n' => some '\n'
  | 'r' => some '\r'
  | 't' => some '\t'
  | _ => none

/-- A character that stands for itself inside quotes: a tab, or any that is no control character of
ASCII. -/
def isQuotable (c : Char) : Bool :=
  c = '\t' || (0x20 ≤ c.toNat && c.toNat ≠ 0x7F)

/-- The text without the escapes in it. `plain` tells which characters may stand for themselves. -/
def unescape? (plain : Char → Bool) : List Char → Option (List Char)
  | [] => some []
  | '\\' :: 'u' :: a :: b :: c :: d :: rest => do
    let character ← characterOf? [a, b, c, d]
    return character :: (← unescape? plain rest)
  | '\\' :: 'U' :: a :: b :: c :: d :: e :: f :: g :: h :: rest => do
    let character ← characterOf? [a, b, c, d, e, f, g, h]
    return character :: (← unescape? plain rest)
  | '\\' :: letter :: rest => do
    let character ← escaped? letter
    return character :: (← unescape? plain rest)
  | c :: rest => if plain c && c ≠ '\\' then (unescape? plain rest).map (c :: ·) else none

/-- A text up to the first quote that no backslash escapes, and what follows the quote. -/
def untilQuote? : List Char → Option (List Char × List Char)
  | [] => none
  | '"' :: rest => some ([], rest)
  | '\\' :: c :: rest => (untilQuote? rest).map fun (text, rest) => ('\\' :: c :: text, rest)
  | c :: rest => (untilQuote? rest).map fun (text, rest) => (c :: text, rest)

/-- The text behind an opening quote, without its escapes, and what follows the closing quote. -/
def quotedText? (cs : List Char) : Option (List Char × List Char) := do
  let (text, rest) ← untilQuote? cs
  return (← unescape? isQuotable text, rest)

end BuildRunner.Text
