import BuildRunner.Decimal.Numeral
import BuildRunner.Settings.Value
import BuildRunner.Text.Blank
import BuildRunner.Text.Escape

/-!
# Values written in one line

The grammar by which the value of an environment variable is read: truth values, tables between
braces, lists between brackets, texts between double quotes, one character between single quotes,
numbers, and any other text without its blanks. A text that the grammar does not cover to its end
stands for itself, blanks included.
-/

namespace BuildRunner.Settings.Inline

/-- The characters that end a text without quotes. -/
def isSeparator (c : Char) : Bool :=
  c = ',' || c = '\x7b' || c = '\x7d' || c = '[' || c = ']'

/-- The characters of a name without quotes. -/
def isNameChar (c : Char) : Bool :=
  c.isAlphanum || c = '_' || c = '-'

/-- The text behind its leading ASCII blanks. -/
def skipBlanks (cs : List Char) : List Char :=
  cs.dropWhile Text.isAsciiBlank

/-- The greatest number that counts as unsigned. -/
def greatestUnsigned : Nat := Nat.pow 2 64 - 1

/-- A whole number: unsigned where it has no minus, signed with one, each within 64 bits. -/
def whole? : List Char → Option Scalar
  | '-' :: digits => do
    let n ← Decimal.natural? digits
    if n ≤ Nat.pow 2 63 then some (.signed (-(n : Int))) else none
  | '+' :: digits => do
    let n ← Decimal.natural? digits
    if n ≤ greatestUnsigned then some (.unsigned n) else none
  | digits => do
    let n ← Decimal.natural? digits
    if n ≤ greatestUnsigned then some (.unsigned n) else none

/-- A text without quotes, its blanks removed: a number if it reads as one. A number with a point
is a real one. -/
def bare (cs : List Char) : Scalar :=
  let number := if cs.contains '.' then (Decimal.Binary64.ofNumeral? cs).map Scalar.real else none
  (number.or (whole? cs)).getD (.text (String.ofList cs))

/-- A simple value at the front of a text, and what follows it. -/
def scalar? : List Char → Option (Scalar × List Char)
  | 't' :: 'r' :: 'u' :: 'e' :: rest => some (.truth true, rest)
  | 'f' :: 'a' :: 'l' :: 's' :: 'e' :: rest => some (.truth false, rest)
  | '"' :: rest =>
    (Text.quotedText? rest).map fun (text, rest) => (.text (String.ofList text), rest)
  | '\'' :: c :: '\'' :: rest => some (.text (String.ofList [c]), rest)
  | '\'' :: _ => none
  | cs =>
    let text := cs.takeWhile fun c => !isSeparator c
    some (bare (Text.trim text), cs.dropWhile fun c => !isSeparator c)

/-- A name in a table, and what follows it. -/
def name? : List Char → Option (String × List Char)
  | '"' :: rest => (Text.quotedText? rest).map fun (text, rest) => (String.ofList text, rest)
  | cs =>
    let name := cs.takeWhile isNameChar
    if name = [] then none else some (String.ofList name, cs.dropWhile isNameChar)

/-- Items up to the closing character, with commas between them and perhaps one behind the last;
`fuel` bounds their count. -/
def items? {α : Type} (item? : List Char → Option (α × List Char)) (closing : Char) :
    Nat → List Char → Option (List α × List Char)
  | 0, _ => none
  | fuel + 1, cs =>
    if cs.head? = some closing then some ([], cs.tail)
    else do
      let (first, rest) ← item? cs
      match rest with
      | [] => none
      | c :: rest =>
        if c = ',' then do
          let (others, rest) ← items? item? closing fuel rest
          return (first :: others, rest)
        else if c = closing then some ([first], rest)
        else none

/-- An entry of a table, and what follows it. -/
def named? (value? : List Char → Option (Value × List Char)) (cs : List Char) :
    Option ((String × Value) × List Char) := do
  let (name, rest) ← name? (skipBlanks cs)
  match skipBlanks rest with
  | '=' :: rest =>
    let (value, rest) ← value? (skipBlanks rest)
    return ((name, value), skipBlanks rest)
  | _ => none

/-- A value at the front of a text, and what follows it; `depth` bounds how deeply it is nested. -/
def value? (source : Source) : Nat → List Char → Option (Value × List Char)
  | depth, cs =>
    match skipBlanks cs with
    | '\x7b' :: rest =>
      match depth with
      | 0 => none
      | depth + 1 => do
        let (entries, rest) ← items? (named? (value? source depth)) '\x7d' (rest.length + 1) rest
        return (.table source (.ofList entries), skipBlanks rest)
    | '[' :: rest =>
      match depth with
      | 0 => none
      | depth + 1 => do
        let (items, rest) ← items? (value? source depth) ']' (rest.length + 1) rest
        return (.list source items, skipBlanks rest)
    | cs => do
      let (scalar, rest) ← scalar? cs
      return (.scalar source scalar, skipBlanks rest)

/-- The value a text stands for. -/
def read (source : Source) (text : String) : Value :=
  match value? source text.length text.toList with
  | some (value, []) => value
  | _ => .scalar source (.text text)

end BuildRunner.Settings.Inline
