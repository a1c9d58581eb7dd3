import BuildRunner.Text.Escaped

/-!
# Quoted text

A text between double quotes in which every character can be seen: quotes and backslashes stand
behind a backslash, the usual control characters have a letter, and other characters that do not
show are written as their code point in hexadecimal digits between braces.
-/

namespace BuildRunner.Text

/-- The digit of a number below sixteen, in lower case. -/
def hexDigit (n : Nat) : Char :=
  if n < 10 then Char.ofNat (48 + n) else Char.ofNat (87 + n)

/-- The hexadecimal digits of a number, least first; `fuel` bounds their count. -/
def hexDigitsFrom : Nat → Nat → List Char
  | 0, _ => []
  | fuel + 1, n => hexDigit (n % 16) :: if n < 16 then [] else hexDigitsFrom fuel (n / 16)

/-- The hexadecimal digits of a code point, without leading zeros. -/
def hexDigits (n : Nat) : List Char :=
  (hexDigitsFrom 8 n).reverse

/-- How a character is written inside a quoted text. -/
def quoteChar (c : Char) : List Char :=
  if c = '"' then ['\\', '"']
  else if c = '\\' then ['\\', '\\']
  else if c = '\n' then ['\\', 'n']
  else if c = '\r' then ['\\', 'r']
  else if c = '\t' then ['\\', 't']
  else if c = '\x00' then ['\\', '0']
  else if isNumbered c then ['\\', 'u', '\x7b'] ++ hexDigits c.toNat ++ ['\x7d']
  else [c]

/-- A text between double quotes, with every character visible. -/
def quoted (s : String) : String :=
  String.ofList ('"' :: s.toList.flatMap quoteChar ++ ['"'])

end BuildRunner.Text
