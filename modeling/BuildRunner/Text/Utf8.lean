/-!
# Text as bytes

The UTF-8 form of a text as a list of bytes, and the text of a list of bytes, where it is the UTF-8
form of one. Any other bytes can still be read for people: what is no part of a character is then
shown by the replacement character, one for as many bytes as could begin a character. Bytes are
ordered from the left, with a shorter list first.
-/

namespace BuildRunner.Text

/-- The UTF-8 form of a text. -/
def utf8 (s : String) : List UInt8 :=
  s.toUTF8.data.toList

/-- The text whose UTF-8 form is `bytes`, if there is one. -/
def ofUtf8? (bytes : List UInt8) : Option String :=
  String.fromUTF8? (ByteArray.mk bytes.toArray)

/-- Whether the bytes `a` come before the bytes `b` or are the same. -/
def leBytes (a b : List UInt8) : Bool :=
  decide (a ≤ b)

/-! ## Reading any bytes -/

/-- The character that stands for bytes that are no part of one. -/
def replacement : Char := '\uFFFD'

/-- A character of which some bytes were read. -/
structure Begun where
  /-- The number that these bytes give. -/
  code : Nat
  /-- How many bytes follow behind the next one. -/
  left : Nat
  /-- The least byte that can come next. -/
  low : Nat
  /-- The greatest byte that can come next. -/
  high : Nat
  deriving DecidableEq, Repr

/-- What the first byte of a character gives: the character, or one that was begun. -/
def readFirst (byte : UInt8) : List Char × Option Begun :=
  let b := byte.toNat
  if b ≤ 0x7F then ([Char.ofNat b], none)
  else if b ≤ 0xC1 then ([replacement], none)
  else if b ≤ 0xDF then ([], some ⟨b - 0xC0, 0, 0x80, 0xBF⟩)
  else if b = 0xE0 then ([], some ⟨0, 1, 0xA0, 0xBF⟩)
  else if b = 0xED then ([], some ⟨0xD, 1, 0x80, 0x9F⟩)
  else if b ≤ 0xEF then ([], some ⟨b - 0xE0, 1, 0x80, 0xBF⟩)
  else if b = 0xF0 then ([], some ⟨0, 2, 0x90, 0xBF⟩)
  else if b ≤ 0xF3 then ([], some ⟨b - 0xF0, 2, 0x80, 0xBF⟩)
  else if b = 0xF4 then ([], some ⟨4, 2, 0x80, 0x8F⟩)
  else ([replacement], none)

/-- What one more byte gives. A byte that cannot come next ends what was begun and is the first one
of another character. -/
def readByte : Option Begun → UInt8 → List Char × Option Begun
  | none, byte => readFirst byte
  | some begun, byte =>
    let b := byte.toNat
    if begun.low ≤ b ∧ b ≤ begun.high then
      let code := begun.code * 64 + (b - 0x80)
      match begun.left with
      | 0 => ([Char.ofNat code], none)
      | left + 1 => ([], some ⟨code, left, 0x80, 0xBF⟩)
    else (replacement :: (readFirst byte).1, (readFirst byte).2)

/-- The characters that bytes give, and the character that was begun with the last ones. -/
def readBytes : Option Begun → List UInt8 → List Char × Option Begun
  | begun, [] => ([], begun)
  | begun, byte :: rest =>
    let (characters, begun) := readByte begun byte
    let (more, last) := readBytes begun rest
    (characters ++ more, last)

/-- What is shown of a character that was begun, if one was, and is not ended. -/
def unended : Option Begun → List Char
  | none => []
  | some _ => [replacement]

/-- The characters of bytes that need not be the UTF-8 form of a text. -/
def readableChars (bytes : List UInt8) : List Char :=
  let (characters, begun) := readBytes none bytes
  characters ++ unended begun

/-- Bytes as a text for people, the text itself where the bytes are its UTF-8 form. -/
def readable (bytes : List UInt8) : String :=
  String.ofList (readableChars bytes)

end BuildRunner.Text
