import BuildRunner.Proofs.Text.Lines
import BuildRunner.Proofs.Text.Readable
import BuildRunner.Text.Raw

/-!
# Raw texts and the texts they are shown as

A text is a raw text with all that belongs to it: it can be joined and cut by its characters or by
its bytes, and it is shown as itself. A raw text that is not Unicode is shown as a text that it is
not. Whether a separator of ASCII stands in it, and how it ends, can be seen nevertheless.
-/

namespace BuildRunner

namespace RawText

variable {a b c raw : RawText} {s t : String}

@[ext] theorem ext (same : a.bytes = b.bytes) : a = b := by
  cases a
  exact congrArg _ same

@[simp] theorem bytes_ofString (s : String) : (s : RawText).bytes = Text.utf8 s := rfl

@[simp] theorem bytes_append (a b : RawText) : (a ++ b).bytes = a.bytes ++ b.bytes := rfl

theorem append_assoc (a b c : RawText) : a ++ b ++ c = a ++ (b ++ c) :=
  ext (List.append_assoc _ _ _)

@[simp] theorem append_empty (a : RawText) : a ++ ("" : RawText) = a :=
  ext (List.append_nil _)

@[simp] theorem empty_append (a : RawText) : ("" : RawText) ++ a = a :=
  ext (List.nil_append _)

theorem bytes_eq_nil_iff : a.bytes = [] ↔ a = "" := by
  rw [RawText.ext_iff]
  rfl

theorem append_ne_empty_of_left (nonempty : a ≠ "") (b : RawText) : a ++ b ≠ "" := by
  rw [Ne, ← bytes_eq_nil_iff] at nonempty ⊢
  exact List.append_ne_nil_of_left_ne_nil nonempty b.bytes

theorem append_left_inj : a ++ c = b ++ c ↔ a = b :=
  ⟨fun same => ext (List.append_cancel_right (congrArg bytes same)), congrArg (· ++ c)⟩

/-- A raw text ends as what is appended to it. -/
theorem getLast?_bytes_append (a : RawText) (nonempty : b ≠ "") :
    (a ++ b).bytes.getLast? = b.bytes.getLast? := by
  rw [Ne, ← bytes_eq_nil_iff] at nonempty
  rw [bytes_append, List.getLast?_append, List.getLast?_eq_some_getLast nonempty, Option.some_or]

/-! ## Joining and cutting -/

variable {separator part : RawText} {parts front back : List RawText}

@[simp] theorem intercalate_singleton (separator part : RawText) :
    separator.intercalate [part] = part :=
  ext (List.append_nil part.bytes)

theorem intercalate_cons_of_ne_nil (more : parts ≠ []) :
    separator.intercalate (part :: parts) = part ++ separator ++ separator.intercalate parts := by
  have more : parts.map bytes ≠ [] := mt List.map_eq_nil_iff.mp more
  exact ext (List.intercalate_cons_of_ne_nil more)

theorem intercalate_append_of_ne_nil (some : front ≠ []) (more : back ≠ []) :
    separator.intercalate (front ++ back) =
      separator.intercalate front ++ separator ++ separator.intercalate back := by
  induction front with
  | nil => exact absurd rfl some
  | cons part front ih =>
    rw [List.cons_append, intercalate_cons_of_ne_nil (List.append_ne_nil_of_right_ne_nil _ more)]
    by_cases none : front = []
    · subst none
      rw [List.nil_append, intercalate_singleton]
    · rw [ih none, intercalate_cons_of_ne_nil none]
      simp only [append_assoc]

/-- The pieces of two raw texts with a separator between them. -/
theorem pieces_append (separator : UInt8) (a b : RawText) :
    (a ++ ⟨[separator]⟩ ++ b).pieces separator = a.pieces separator ++ b.pieces separator := by
  rw [pieces, bytes_append, bytes_append, List.append_assoc, List.singleton_append,
    Text.splitAtEach_append_cons, List.map_append]
  rfl

/-- A raw text without a separator is a single piece. -/
theorem pieces_of_not_mem {separator : UInt8} (plain : separator ∉ raw.bytes) :
    raw.pieces separator = [raw] := by
  rw [pieces, Text.splitAtEach_of_not_mem plain, List.map_singleton]

/-- No piece holds a separator. -/
theorem not_mem_of_mem_pieces {separator : UInt8} (h : part ∈ raw.pieces separator) :
    separator ∉ part.bytes := by
  obtain ⟨bytes, mem, rfl⟩ := List.mem_map.mp h
  exact Text.not_mem_of_mem_splitAtEach mem

theorem pieces_ne_nil (separator : UInt8) (raw : RawText) : raw.pieces separator ≠ [] := by
  rw [pieces, Ne, List.map_eq_nil_iff]
  exact Text.splitAtEach_ne_nil separator raw.bytes

/-- The pieces with the separator between them are the raw text. -/
theorem intercalate_pieces (separator : UInt8) (raw : RawText) :
    (⟨[separator]⟩ : RawText).intercalate (raw.pieces separator) = raw := by
  have same : (raw.pieces separator).map bytes = Text.splitAtEach separator raw.bytes := by
    rw [pieces, List.map_map]
    exact List.map_id' _
  refine ext ?_
  rw [intercalate, same]
  exact Text.intercalate_splitAtEach separator raw.bytes

/-! ## Texts -/

/-- Different texts have different bytes. -/
@[simp] theorem ofString_inj : (s : RawText) = t ↔ s = t :=
  ⟨fun same => Text.utf8_injective (congrArg bytes same), congrArg _⟩

theorem ofString_append (s t : String) : ((s ++ t : String) : RawText) = s ++ t :=
  ext (Text.utf8_append s t)

/-- A text is shown as it is. -/
@[simp] theorem text_ofString (s : String) : (s : RawText).text = s :=
  Text.readable_utf8 s

/-- A raw text that is the UTF-8 form of a text. -/
def IsUnicode (raw : RawText) : Prop :=
  ∃ s : String, raw = s

theorem isUnicode_ofString (s : String) : (s : RawText).IsUnicode :=
  ⟨s, rfl⟩

/-- Such a raw text is the text that is shown of it. -/
theorem IsUnicode.ofString_text (unicode : raw.IsUnicode) : (raw.text : RawText) = raw := by
  obtain ⟨s, rfl⟩ := unicode
  rw [text_ofString]

theorem IsUnicode.append (ha : a.IsUnicode) (hb : b.IsUnicode) : (a ++ b).IsUnicode := by
  obtain ⟨s, rfl⟩ := ha
  obtain ⟨t, rfl⟩ := hb
  exact ⟨s ++ t, (ofString_append s t).symm⟩

theorem isUnicode_intercalate (joint : separator.IsUnicode) (all : ∀ part ∈ parts, part.IsUnicode) :
    (separator.intercalate parts).IsUnicode := by
  induction parts with
  | nil => exact isUnicode_ofString ""
  | cons part parts ih =>
    obtain ⟨own, others⟩ := List.forall_mem_cons.mp all
    by_cases single : parts = []
    · rwa [single, intercalate_singleton]
    · rw [intercalate_cons_of_ne_nil single]
      exact (own.append joint).append (ih others)

/-! ## Characters of ASCII -/

variable {c : Char} {front ending : String}

theorem toList_text (raw : RawText) : raw.text.toList = Text.readableChars raw.bytes :=
  String.toList_ofList

/-- A character of ASCII is shown where its byte is. -/
theorem mem_toList_text_iff (ascii : c.toNat ≤ 0x7F) :
    c ∈ raw.text.toList ↔ UInt8.ofNat c.toNat ∈ raw.bytes := by
  rw [toList_text, Text.mem_readableChars_iff ascii]

/-- What is shown holds the same bytes of ASCII. -/
theorem mem_bytes_text_iff (ascii : c.toNat ≤ 0x7F) :
    UInt8.ofNat c.toNat ∈ (raw.text : RawText).bytes ↔ UInt8.ofNat c.toNat ∈ raw.bytes := by
  rw [← mem_toList_text_iff ascii, text_ofString, mem_toList_text_iff ascii]

/-- The characters of a text of ASCII have one byte each. -/
theorem bytes_of_ascii (ascii : Text.IsAscii s) :
    (s : RawText).bytes = s.toList.map fun c => UInt8.ofNat c.toNat := by
  have own : Text.readableChars (s : RawText).bytes = [] ++ s.toList := by
    rw [← toList_text, text_ofString, List.nil_append]
  obtain ⟨before, bytes, none⟩ := (Text.readableChars_eq_append_iff ascii).mp own
  rw [bytes, Text.readableChars_eq_nil_iff.mp none, List.nil_append]

/-- An ending of ASCII is shown of those raw texts that end in its bytes. -/
theorem text_eq_append_iff (ascii : Text.IsAscii ending) :
    raw.text = front ++ ending ↔
      ∃ before : RawText, raw = before ++ ending ∧ before.text = front := by
  rw [← String.toList_inj, toList_text, String.toList_append,
    Text.readableChars_eq_append_iff ascii, ← bytes_of_ascii ascii]
  constructor
  · rintro ⟨before, bytes, shown⟩
    exact ⟨⟨before⟩, ext bytes, String.toList_inj.mp (by rw [toList_text, shown])⟩
  · rintro ⟨before, rfl, rfl⟩
    exact ⟨before.bytes, rfl, (toList_text before).symm⟩

theorem text_append (ascii : Text.IsAscii ending) (raw : RawText) :
    (raw ++ ending).text = raw.text ++ ending :=
  (text_eq_append_iff ascii).mpr ⟨raw, rfl, rfl⟩

theorem text_eq_empty_iff : raw.text = "" ↔ raw = "" := by
  rw [← String.toList_inj, toList_text, ← bytes_eq_nil_iff]
  exact Text.readableChars_eq_nil_iff

/-- Only a text of ASCII itself is shown as this text. -/
theorem text_eq_iff (ascii : Text.IsAscii s) : raw.text = s ↔ raw = s := by
  refine ⟨fun shown => ?_, fun same => by rw [same, text_ofString]⟩
  have ends : raw.text = "" ++ s := by rw [shown, String.empty_append]
  obtain ⟨before, rfl, none⟩ := (text_eq_append_iff ascii).mp ends
  rw [text_eq_empty_iff.mp none, empty_append]

theorem ofString_text_eq_iff (ascii : Text.IsAscii s) : (raw.text : RawText) = s ↔ raw = s :=
  ofString_inj.trans (text_eq_iff ascii)

end RawText

end BuildRunner
