import BuildRunner.Text.Lines
import BuildRunner.Text.Utf8

/-!
# Raw texts

Names and paths are bytes to a file system. They are meant as texts, and most are the UTF-8 form of
one, but nothing enforces it. A raw text keeps the bytes. What is shown of it is a text, which is
the same for many raw texts where they are no UTF-8 form: to show is to forget.
-/

namespace BuildRunner

/-- Bytes that are meant as a text. -/
structure RawText where
  bytes : List UInt8
  deriving DecidableEq, Repr, Inhabited

namespace RawText

/-- A text as its bytes. -/
@[coe] def ofString (s : String) : RawText :=
  ⟨Text.utf8 s⟩

instance : Coe String RawText := ⟨ofString⟩

/-- A raw text as it is shown. -/
def text (raw : RawText) : String :=
  Text.readable raw.bytes

instance : Append RawText := ⟨fun a b => ⟨a.bytes ++ b.bytes⟩⟩

/-- A raw text cut at every byte `separator`. -/
def pieces (separator : UInt8) (raw : RawText) : List RawText :=
  (Text.splitAtEach separator raw.bytes).map RawText.mk

/-- Raw texts behind each other, with `separator` between them. -/
def intercalate (separator : RawText) (parts : List RawText) : RawText :=
  ⟨separator.bytes.intercalate (parts.map bytes)⟩

end RawText

end BuildRunner
