import BuildRunner.Text.Utf8

/-!
# The bytes of a text

The UTF-8 form is a homomorphism from texts to lists of bytes and loses nothing: it can be read
back, so equal bytes are the bytes of equal texts. Bytes are ordered linearly, and so are texts by
their bytes.
-/

namespace BuildRunner.Text

@[simp] theorem utf8_empty : utf8 "" = [] := rfl

@[simp] theorem utf8_append (a b : String) : utf8 (a ++ b) = utf8 a ++ utf8 b := by
  simp [utf8, String.toByteArray_append, ByteArray.data_append]

/-- Bytes are those of one text at most. -/
theorem utf8_injective : Function.Injective utf8 := by
  intro a b h
  have bytes : a.toUTF8.data = b.toUTF8.data := Array.toList_inj.mp h
  exact String.toByteArray_inj.mp (ByteArray.ext bytes)

/-- The bytes of a text read back as that text. -/
@[simp] theorem fromUTF8?_toByteArray (s : String) : String.fromUTF8? s.toByteArray = some s := by
  rw [String.fromUTF8?, dif_pos s.isValidUTF8]
  rfl

@[simp] theorem ofUtf8?_utf8 (s : String) : ofUtf8? (utf8 s) = some s := by
  have bytes : ByteArray.mk (utf8 s).toArray = s.toByteArray := by
    simp [utf8]
  rw [ofUtf8?, bytes, fromUTF8?_toByteArray]

/-- A text has no more characters than bytes. -/
theorem length_le_utf8ByteSize (s : String) : s.length ≤ s.utf8ByteSize := by
  suffices ∀ cs : List Char, cs.length ≤ (String.ofList cs).utf8ByteSize by
    simpa only [String.length_toList, String.ofList_toList] using this s.toList
  intro cs
  induction cs with
  | nil => exact Nat.zero_le _
  | cons c cs ih =>
    rw [String.ofList_cons, String.utf8ByteSize_append, String.utf8ByteSize_singleton]
    have := c.utf8Size_pos
    simp only [List.length_cons]
    omega

/-! ## The order of bytes -/

variable {a b c : List UInt8}

theorem leBytes_iff : leBytes a b = true ↔ a ≤ b :=
  decide_eq_true_iff

theorem leBytes_trans (ab : leBytes a b = true) (bc : leBytes b c = true) : leBytes a c = true :=
  leBytes_iff.mpr (List.le_trans (leBytes_iff.mp ab) (leBytes_iff.mp bc))

theorem leBytes_total (a b : List UInt8) : (leBytes a b || leBytes b a) = true := by
  simpa [leBytes_iff] using List.le_total a b

theorem leBytes_antisymm (ab : leBytes a b = true) (ba : leBytes b a = true) : a = b :=
  List.le_antisymm (leBytes_iff.mp ab) (leBytes_iff.mp ba)

/-- Of different bytes in order, the first come strictly before the second. -/
theorem lt_of_leBytes (le : leBytes a b = true) (ne : a ≠ b) : a < b := by
  apply Decidable.byContradiction
  intro notLt
  have ge : b ≤ a := notLt
  exact ne (leBytes_antisymm le (leBytes_iff.mpr ge))

end BuildRunner.Text
