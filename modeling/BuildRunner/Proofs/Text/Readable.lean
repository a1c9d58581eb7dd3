import BuildRunner.Proofs.Text.Utf8
import Mathlib.Algebra.Group.Nat.Defs

/-!
# What is shown of bytes

Bytes that are the UTF-8 form of a text are shown as this text (`readable_utf8`). Of other bytes
something is shown too, but they cannot be told from it: where a byte is no part of a character, the
replacement character stands, whatever the byte was.

A byte of ASCII is always a character by itself. Bytes before it and behind it are read apart, so it
is shown where it stands and nowhere else, and an ending made of such bytes can be read off what is
shown (`readableChars_eq_append_iff`).
-/

namespace BuildRunner.Text

theorem readBytes_cons (begun : Option Begun) (byte : UInt8) (rest : List UInt8) :
    readBytes begun (byte :: rest) =
      ((readByte begun byte).1 ++ (readBytes (readByte begun byte).2 rest).1,
        (readBytes (readByte begun byte).2 rest).2) :=
  rfl

theorem readBytes_append (begun : Option Begun) (front back : List UInt8) :
    readBytes begun (front ++ back) =
      ((readBytes begun front).1 ++ (readBytes (readBytes begun front).2 back).1,
        (readBytes (readBytes begun front).2 back).2) := by
  induction front generalizing begun with
  | nil => rfl
  | cons byte front ih =>
    rw [List.cons_append, readBytes_cons, ih, readBytes_cons, List.append_assoc]

variable {v code left low high tail : Nat}

theorem toNat_ofNat_of_le (le : v ≤ 0xFF) : (UInt8.ofNat v).toNat = v :=
  UInt8.toNat_ofNat_of_lt' (by rw [UInt8.size]; omega)

/-- The last byte of a character completes it. -/
theorem readByte_last (small : tail < 0x40) :
    readByte (some ⟨code, 0, 0x80, 0xBF⟩) (UInt8.ofNat (tail + 0x80)) =
      ([Char.ofNat (code * 64 + tail)], none) := by
  have own := toNat_ofNat_of_le (v := tail + 0x80) (by omega)
  simp only [readByte, own, Nat.add_sub_cancel]
  exact if_pos (by omega)

/-- A byte that can come next, and is not the last one, adds to the number. -/
theorem readByte_next (small : tail < 0x40) (ge : low ≤ tail + 0x80) (le : tail + 0x80 ≤ high) :
    readByte (some ⟨code, left + 1, low, high⟩) (UInt8.ofNat (tail + 0x80)) =
      ([], some ⟨code * 64 + tail, left, 0x80, 0xBF⟩) := by
  have own := toNat_ofNat_of_le (v := tail + 0x80) (by omega)
  simp only [readByte, own, Nat.add_sub_cancel]
  exact if_pos ⟨ge, le⟩

theorem readFirst_of_two (ge : 0x80 ≤ v) (le : v ≤ 0x7FF) :
    readFirst (UInt8.ofNat (v / 64 % 0x20 + 0xC0)) = ([], some ⟨v / 64, 0, 0x80, 0xBF⟩) := by
  have own := toNat_ofNat_of_le (v := v / 64 % 0x20 + 0xC0) (by omega)
  have code : v / 64 % 0x20 + 0xC0 - 0xC0 = v / 64 := by omega
  rw [readFirst]
  simp only [own]
  rw [if_neg (by omega), if_neg (by omega), if_pos (by omega), code]

theorem readFirst_of_three (ge : 0x800 ≤ v) (le : v ≤ 0xFFFF) (valid : v.isValidChar) :
    ∃ low high, low ≤ v / 64 % 0x40 + 0x80 ∧ v / 64 % 0x40 + 0x80 ≤ high ∧
      readFirst (UInt8.ofNat (v / 4096 % 0x10 + 0xE0)) = ([], some ⟨v / 4096, 1, low, high⟩) := by
  have own := toNat_ofNat_of_le (v := v / 4096 % 0x10 + 0xE0) (by omega)
  have code : v / 4096 % 0x10 + 0xE0 - 0xE0 = v / 4096 := by omega
  rw [readFirst]
  simp only [own]
  rw [if_neg (by omega), if_neg (by omega), if_neg (by omega)]
  by_cases least : v / 4096 = 0
  · refine ⟨0xA0, 0xBF, by omega, by omega, ?_⟩
    rw [if_pos (by omega), least]
  by_cases surrogate : v / 4096 = 0xD
  · refine ⟨0x80, 0x9F, by omega, ?_, ?_⟩
    · rcases valid with below | above <;> omega
    · rw [if_neg (by omega), if_pos (by omega), surrogate]
  · refine ⟨0x80, 0xBF, by omega, by omega, ?_⟩
    rw [if_neg (by omega), if_neg (by omega), if_pos (by omega), code]

theorem readFirst_of_four (ge : 0x10000 ≤ v) (valid : v.isValidChar) :
    ∃ low high, low ≤ v / 4096 % 0x40 + 0x80 ∧ v / 4096 % 0x40 + 0x80 ≤ high ∧
      readFirst (UInt8.ofNat (v / 262144 % 0x08 + 0xF0)) =
        ([], some ⟨v / 262144, 2, low, high⟩) := by
  have le : v < 0x110000 := by rcases valid with below | above <;> omega
  have own := toNat_ofNat_of_le (v := v / 262144 % 0x08 + 0xF0) (by omega)
  have code : v / 262144 % 0x08 + 0xF0 - 0xF0 = v / 262144 := by omega
  rw [readFirst]
  simp only [own]
  rw [if_neg (by omega), if_neg (by omega), if_neg (by omega), if_neg (by omega),
    if_neg (by omega), if_neg (by omega)]
  by_cases least : v / 262144 = 0
  · refine ⟨0x90, 0xBF, by omega, by omega, ?_⟩
    rw [if_pos (by omega), least]
  by_cases greatest : v / 262144 = 4
  · refine ⟨0x80, 0x8F, by omega, by omega, ?_⟩
    rw [if_neg (by omega), if_neg (by omega), if_pos (by omega), greatest]
  · refine ⟨0x80, 0xBF, by omega, by omega, ?_⟩
    rw [if_neg (by omega), if_pos (by omega), code]

theorem readByte_none (byte : UInt8) : readByte none byte = readFirst byte :=
  rfl

/-- The bytes of a character are read as this character. -/
theorem readBytes_utf8EncodeChar (c : Char) :
    readBytes none (String.utf8EncodeChar c) = ([c], none) := by
  have valid : c.val.toNat.isValidChar := c.valid
  have same : Char.ofNat c.val.toNat = c := Char.ofNat_toNat c
  rw [String.utf8EncodeChar]
  generalize c.val.toNat = v at valid same ⊢
  split
  · next le =>
    have own := toNat_ofNat_of_le (v := v) (by omega)
    simp [readBytes, readByte, readFirst, own, le, same]
  split
  · next gt le =>
    have code : v / 64 * 64 + v % 0x40 = v := by omega
    rw [readBytes_cons, readByte_none, readFirst_of_two (by omega) le, readBytes_cons,
      readByte_last (by omega), code, same]
    rfl
  split
  · next gt' gt le =>
    obtain ⟨low, high, ge', le', first⟩ := readFirst_of_three (v := v) (by omega) le valid
    have code : v / 4096 * 64 + v / 64 % 0x40 = v / 64 := by omega
    have code' : v / 64 * 64 + v % 0x40 = v := by omega
    rw [readBytes_cons, readByte_none, first, readBytes_cons, readByte_next (by omega) ge' le',
      code, readBytes_cons, readByte_last (by omega), code', same]
    rfl
  · next gt'' gt' gt =>
    obtain ⟨low, high, ge', le', first⟩ := readFirst_of_four (v := v) (by omega) valid
    have code : v / 262144 * 64 + v / 4096 % 0x40 = v / 4096 := by omega
    have code' : v / 4096 * 64 + v / 64 % 0x40 = v / 64 := by omega
    have code'' : v / 64 * 64 + v % 0x40 = v := by omega
    rw [readBytes_cons, readByte_none, first, readBytes_cons, readByte_next (by omega) ge' le',
      code, readBytes_cons, readByte_next (by omega) (by omega) (by omega), code', readBytes_cons,
      readByte_last (by omega), code'', same]
    rfl

/-! ## Characters that take one byte -/

/-- All characters of the text are of ASCII. -/
def IsAscii (s : String) : Prop :=
  ∀ c ∈ s.toList, c.toNat ≤ 0x7F

instance : DecidablePred IsAscii := fun s =>
  List.decidableBAll (fun c : Char => c.toNat ≤ 0x7F) s.toList

/-- What the bytes to come can make of a begun character is a character beyond ASCII. -/
structure Begun.Sound (begun : Begun) : Prop where
  beyond : 0x80 ≤ begun.low
  valid : ∀ n, (begun.code * 64 + (begun.low - 0x80)) * 64 ^ begun.left ≤ n →
    n < (begun.code * 64 + (begun.high - 0x80 + 1)) * 64 ^ begun.left →
      0x80 ≤ n ∧ n.isValidChar

variable {begun : Option Begun} {bytes : List UInt8} {byte : UInt8} {c : Char}

theorem sound_readFirst (byte : UInt8) : ∀ b ∈ (readFirst byte).2, b.Sound := by
  have sound {code left low high : Nat} (beyond : 0x80 ≤ low)
      (valid : ∀ n, (code * 64 + (low - 0x80)) * 64 ^ left ≤ n →
        n < (code * 64 + (high - 0x80 + 1)) * 64 ^ left → 0x80 ≤ n ∧ n.isValidChar) :
      ∀ b ∈ some (Begun.mk code left low high), b.Sound :=
    fun _ own => Option.mem_some.mp own ▸ ⟨beyond, valid⟩
  unfold Nat.isValidChar at sound
  rw [readFirst]
  split
  · nofun
  split
  · nofun
  split
  · exact sound (by omega) (by omega)
  split
  · exact sound (by omega) (by omega)
  split
  · exact sound (by omega) (by omega)
  split
  · exact sound (by omega) (by omega)
  split
  · exact sound (by omega) (by omega)
  split
  · exact sound (by omega) (by omega)
  split
  · exact sound (by omega) (by omega)
  · nofun

/-- One more byte leaves a begun character sound. -/
theorem Begun.Sound.next {code left low high b : Nat} (sound : Sound ⟨code, left + 1, low, high⟩)
    (ge : low ≤ b) (le : b ≤ high) : Sound ⟨code * 64 + (b - 0x80), left, 0x80, 0xBF⟩ := by
  refine ⟨Nat.le_refl _, fun n above below => sound.valid n ?_ ?_⟩
  · have least : code * 64 + (low - 0x80) ≤ code * 64 + (b - 0x80) := by omega
    rw [Nat.sub_self, Nat.add_zero, Nat.mul_assoc, ← Nat.pow_succ'] at above
    exact Nat.le_trans (Nat.mul_le_mul_right _ least) above
  · have greatest : code * 64 + (b - 0x80) + 1 ≤ code * 64 + (high - 0x80 + 1) := by omega
    have width : 0xBF - 0x80 + 1 = 64 := rfl
    dsimp only at below
    rw [width, ← Nat.succ_mul, Nat.mul_assoc, ← Nat.pow_succ'] at below
    exact Nat.lt_of_lt_of_le below (Nat.mul_le_mul_right _ greatest)

/-- Reading leaves begun characters sound. -/
theorem sound_readByte (sound : ∀ b ∈ begun, b.Sound) (byte : UInt8) :
    ∀ b ∈ (readByte begun byte).2, b.Sound := by
  cases begun with
  | none => exact sound_readFirst byte
  | some begun =>
    obtain ⟨code, left, low, high⟩ := begun
    have own := sound _ rfl
    rw [readByte]
    dsimp only
    split
    · next next =>
      cases left with
      | zero => simp
      | succ left =>
        intro b mem
        rw [← Option.some.inj mem]
        exact own.next next.1 next.2
    · exact sound_readFirst byte

theorem sound_none : ∀ b ∈ (none : Option Begun), b.Sound :=
  nofun

theorem sound_readBytes (sound : ∀ b ∈ begun, b.Sound) (bytes : List UInt8) :
    ∀ b ∈ (readBytes begun bytes).2, b.Sound := by
  induction bytes generalizing begun with
  | nil => exact sound
  | cons byte bytes ih => exact ih (sound_readByte sound byte)

/-- A byte of ASCII ends what was begun and is a character. -/
theorem readByte_of_ascii (sound : ∀ b ∈ begun, b.Sound) (ascii : byte.toNat ≤ 0x7F) :
    readByte begun byte = (unended begun ++ [Char.ofNat byte.toNat], none) := by
  have first : readFirst byte = ([Char.ofNat byte.toNat], none) := by
    rw [readFirst]
    exact if_pos ascii
  cases begun with
  | none => exact first
  | some begun =>
    have := (sound begun rfl).beyond
    rw [readByte]
    simp only [first]
    exact if_neg (by omega)

theorem toNat_ofNat_of_valid {n : Nat} (valid : n.isValidChar) : (Char.ofNat n).toNat = n := by
  rw [Char.ofNat, dif_pos valid]
  rfl

theorem readFirst_of_beyond (beyond : 0x80 ≤ byte.toNat) :
    readFirst byte = ([replacement], none) ∨ ∃ begun, readFirst byte = ([], some begun) := by
  rw [readFirst]
  grind

/-- A byte beyond ASCII is no part of a character of ASCII, and something is shown for it. -/
theorem readByte_of_beyond (sound : ∀ b ∈ begun, b.Sound) (beyond : 0x80 ≤ byte.toNat) :
    (∀ c ∈ (readByte begun byte).1, 0x80 ≤ c.toNat) ∧
      ((readByte begun byte).1 ≠ [] ∨ (readByte begun byte).2.isSome = true) := by
  have shown : 0x80 ≤ replacement.toNat := by decide
  rcases begun with _ | begun
  · rcases readFirst_of_beyond beyond with refused | ⟨begun, started⟩
    · simp [readByte_none, refused, shown]
    · simp [readByte_none, started]
  · obtain ⟨code, left, low, high⟩ := begun
    have numbers := (sound _ rfl).valid
    rw [readByte]
    dsimp only at numbers ⊢
    split
    · next next =>
      cases left with
      | zero =>
        obtain ⟨ge, valid⟩ := numbers (code * 64 + (byte.toNat - 0x80)) (by omega) (by omega)
        simp [toNat_ofNat_of_valid valid, ge]
      | succ left => simp
    · rcases readFirst_of_beyond beyond with refused | ⟨begun, started⟩
      · simp [refused, shown]
      · simp [started, shown]

/-- A byte of ASCII cuts bytes into two parts that are read apart. -/
theorem readableChars_append_cons (front back : List UInt8) (ascii : byte.toNat ≤ 0x7F) :
    readableChars (front ++ byte :: back) =
      readableChars front ++ Char.ofNat byte.toNat :: readableChars back := by
  have sound := sound_readBytes sound_none front
  rw [readableChars, readBytes_append, readBytes_cons, readByte_of_ascii sound ascii]
  simp [readableChars]

theorem not_mem_unended (ascii : c.toNat ≤ 0x7F) (begun : Option Begun) : c ∉ unended begun := by
  have other : c ≠ replacement := by
    rintro rfl
    exact absurd ascii (by decide)
  cases begun <;> simp [unended, other]

theorem mem_of_mem_readBytes (sound : ∀ b ∈ begun, b.Sound) (ascii : c.toNat ≤ 0x7F)
    (mem : c ∈ (readBytes begun bytes).1) : UInt8.ofNat c.toNat ∈ bytes := by
  induction bytes generalizing begun with
  | nil => cases mem
  | cons byte bytes ih =>
    rw [readBytes_cons, List.mem_append] at mem
    rcases mem with own | others
    · by_cases single : byte.toNat ≤ 0x7F
      · rw [readByte_of_ascii sound single, List.mem_append, List.mem_singleton] at own
        have same := own.resolve_left (not_mem_unended ascii begun)
        have valid : byte.toNat.isValidChar := .inl (by omega)
        rw [same, toNat_ofNat_of_valid valid, UInt8.ofNat_toNat]
        exact List.mem_cons_self
      · have beyond := (readByte_of_beyond sound (by omega)).1 c own
        omega
    · exact List.mem_cons_of_mem _ (ih (sound_readByte sound byte) others)

/-- A character of ASCII is shown where its byte is, and nowhere else. -/
theorem mem_readableChars_iff (ascii : c.toNat ≤ 0x7F) :
    c ∈ readableChars bytes ↔ UInt8.ofNat c.toNat ∈ bytes := by
  constructor
  · intro mem
    rcases List.mem_append.mp mem with mem | mem
    · exact mem_of_mem_readBytes sound_none ascii mem
    · exact absurd mem (not_mem_unended ascii _)
  · intro mem
    obtain ⟨front, back, rfl⟩ := List.append_of_mem mem
    have own : (UInt8.ofNat c.toNat).toNat = c.toNat := toNat_ofNat_of_le (by omega)
    rw [readableChars_append_cons front back (by omega), own, Char.ofNat_toNat]
    exact List.mem_append_right _ List.mem_cons_self

theorem readableChars_concat (front : List UInt8) (ascii : c.toNat ≤ 0x7F) :
    readableChars (front ++ [UInt8.ofNat c.toNat]) = readableChars front ++ [c] := by
  have own : (UInt8.ofNat c.toNat).toNat = c.toNat := toNat_ofNat_of_le (by omega)
  rw [readableChars_append_cons front [] (by omega), own, Char.ofNat_toNat]
  rfl

/-- Behind a byte beyond ASCII stands such a character. -/
theorem exists_getLast?_readableChars (front : List UInt8) (beyond : 0x80 ≤ byte.toNat) :
    ∃ last, (readableChars (front ++ [byte])).getLast? = some last ∧ 0x80 ≤ last.toNat := by
  have sound := sound_readBytes sound_none front
  obtain ⟨all, some⟩ := readByte_of_beyond sound beyond
  rw [readableChars, readBytes_append, readBytes_cons]
  generalize readByte (readBytes none front).2 byte = read at all some
  obtain ⟨characters, next⟩ := read
  cases next with
  | some begun => exact ⟨replacement, by simp [unended, readBytes], by decide⟩
  | none =>
    have more : characters ≠ [] := some.resolve_right (by simp)
    refine ⟨characters.getLast more, ?_, all _ (List.getLast_mem more)⟩
    simp [readBytes, unended, List.getLast?_append, List.getLast?_eq_some_getLast more]

theorem exists_of_readableChars_concat {front : List Char} (ascii : c.toNat ≤ 0x7F)
    (read : readableChars bytes = front ++ [c]) :
    ∃ before, bytes = before ++ [UInt8.ofNat c.toNat] ∧ readableChars before = front := by
  rcases List.eq_nil_or_concat bytes with rfl | ⟨before, byte, rfl⟩
  · cases front <;> cases read
  by_cases single : byte.toNat ≤ 0x7F
  · rw [List.concat_eq_append, readableChars_append_cons before [] single] at read
    obtain ⟨same, ends⟩ := List.append_inj' read rfl
    have valid : byte.toNat.isValidChar := .inl (by omega)
    have own : byte = UInt8.ofNat c.toNat := by
      rw [← (List.cons.inj ends).1, toNat_ofNat_of_valid valid, UInt8.ofNat_toNat]
    exact ⟨before, by rw [List.concat_eq_append, own], same⟩
  · have beyond : 0x80 ≤ byte.toNat := by omega
    obtain ⟨last, ends, other⟩ := exists_getLast?_readableChars before beyond
    rw [← List.concat_eq_append, read, List.getLast?_concat] at ends
    cases ends
    omega

/-- **An ending of ASCII is shown exactly where its bytes are.** -/
theorem readableChars_eq_append_iff {front ending : List Char}
    (ascii : ∀ c ∈ ending, c.toNat ≤ 0x7F) : readableChars bytes = front ++ ending ↔
      ∃ before, bytes = before ++ ending.map (fun c => UInt8.ofNat c.toNat) ∧
        readableChars before = front := by
  induction ending generalizing front with
  | nil => simp
  | cons c ending ih =>
    obtain ⟨own, others⟩ := List.forall_mem_cons.mp ascii
    rw [List.append_cons, ih others]
    constructor
    · rintro ⟨before, rfl, read⟩
      obtain ⟨before, rfl, same⟩ := exists_of_readableChars_concat own read
      exact ⟨before, by simp, same⟩
    · rintro ⟨before, rfl, rfl⟩
      exact ⟨before ++ [UInt8.ofNat c.toNat], by simp, readableChars_concat before own⟩

/-- Something is shown of every byte. -/
theorem readableChars_eq_nil_iff : readableChars bytes = [] ↔ bytes = [] := by
  constructor
  · intro none
    rcases List.eq_nil_or_concat bytes with rfl | ⟨before, byte, rfl⟩
    · rfl
    · exfalso
      rw [List.concat_eq_append] at none
      by_cases single : byte.toNat ≤ 0x7F
      · rw [readableChars_append_cons before [] single] at none
        simp at none
      · have beyond : 0x80 ≤ byte.toNat := by omega
        obtain ⟨last, ends, _⟩ := exists_getLast?_readableChars before beyond
        rw [none] at ends
        cases ends
  · rintro rfl
    rfl

theorem utf8_eq_flatMap (s : String) : utf8 s = s.toList.flatMap String.utf8EncodeChar := by
  rw [utf8, String.toUTF8, ← String.utf8Encode_toList, List.utf8Encode, List.data_toByteArray]

theorem readBytes_flatMap (characters : List Char) :
    readBytes none (characters.flatMap String.utf8EncodeChar) = (characters, none) := by
  induction characters with
  | nil => rfl
  | cons c characters ih =>
    rw [List.flatMap_cons, readBytes_append, readBytes_utf8EncodeChar, ih]
    rfl

/-- **Nothing is lost of a text whose bytes are read.** -/
@[simp] theorem readable_utf8 (s : String) : readable (utf8 s) = s := by
  rw [readable, readableChars, utf8_eq_flatMap, readBytes_flatMap]
  simp [unended]

end BuildRunner.Text
