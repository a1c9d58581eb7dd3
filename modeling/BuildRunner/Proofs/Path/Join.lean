import BuildRunner.Proofs.Path.Components

/-!
# Paths behind paths

A path that is taken from a base, and another one that is taken from there, can be joined in either
order: joining is associative, on the paths as they are written. So what is named from a directory of a
project is the same whether it is seen from that directory first or from the root.
-/

namespace BuildRunner.Path

variable {p q : Path}

/-- A path as it was written with a slash at its end, which is added if there is none. -/
def slashed (p : Path) : RawText :=
  if p.raw.bytes.getLast? = some slash then p.raw else p.raw ++ "/"

theorem join_of_isAbsolute (p : Path) (absolute : q.isAbsolute = true) : p.join q = q := by
  simp [join, absolute]

theorem join_of_empty (empty : p.raw = "") (q : Path) : p.join q = q := by
  simp [join, empty]

theorem join_of_relative (nonempty : p.raw ≠ "") (relative : q.isAbsolute = false) :
    p.join q = ⟨p.slashed ++ q.raw⟩ := by
  have behind : (q.isAbsolute || p.raw = "") = false := by simp [relative, nonempty]
  rw [join, behind, if_neg Bool.false_ne_true, slashed]
  split <;> rfl

theorem raw_ne_empty_of_isAbsolute (absolute : p.isAbsolute = true) : p.raw ≠ "" := by
  intro empty
  simp [isAbsolute, empty] at absolute

/-- Behind an absolute path, every path is absolute. -/
theorem isAbsolute_join (absolute : p.isAbsolute = true) (q : Path) :
    (p.join q).isAbsolute = true := by
  cases own : q.isAbsolute with
  | true => rwa [join_of_isAbsolute p own]
  | false =>
    exact (segments_join_relative own (raw_ne_empty_of_isAbsolute absolute)).1.trans absolute

theorem getLast?_slashed (p : Path) : p.slashed.bytes.getLast? = some slash := by
  rw [slashed]
  split
  · assumption
  · simp

theorem slashed_ne_empty (p : Path) : p.slashed ≠ "" := by
  intro empty
  have ends := p.getLast?_slashed
  rw [empty] at ends
  cases ends

/-- A slash at the end is not added again. -/
theorem slashed_slashed (p : Path) : (Path.mk p.slashed).slashed = p.slashed := by
  rw [slashed, if_pos p.getLast?_slashed]

/-- Whether a slash is added depends on the end of the text. -/
theorem slashed_append (front : RawText) (nonempty : p.raw ≠ "") :
    (Path.mk (front ++ p.raw)).slashed = front ++ p.slashed := by
  rw [slashed, slashed, RawText.getLast?_bytes_append front nonempty]
  split
  · rfl
  · exact RawText.append_assoc _ _ _

/-- Joining is associative. -/
theorem join_assoc (a b c : Path) : (a.join b).join c = a.join (b.join c) := by
  cases third : c.isAbsolute with
  | true => rw [join_of_isAbsolute _ third, join_of_isAbsolute _ third, join_of_isAbsolute _ third]
  | false =>
    by_cases empty : a.raw = ""
    · rw [join_of_empty empty, join_of_empty empty]
    cases second : b.isAbsolute with
    | true =>
      have nonempty := raw_ne_empty_of_isAbsolute second
      have absolute : (b.join c).isAbsolute = true :=
        (segments_join_relative third nonempty).1.trans second
      rw [join_of_isAbsolute a second, join_of_isAbsolute a absolute]
    | false =>
      rw [join_of_relative empty second]
      have outer := RawText.append_ne_empty_of_left a.slashed_ne_empty b.raw
      rw [join_of_relative outer third]
      by_cases between : b.raw = ""
      · rw [join_of_empty between, join_of_relative empty third, between, RawText.append_empty,
          slashed_slashed]
      · have relative : (b.join c).isAbsolute = false :=
          (segments_join_relative third between).1.trans second
        rw [join_of_relative empty relative, join_of_relative between third,
          slashed_append _ between, RawText.append_assoc]

theorem raw_join_ne_empty (nonempty : p.raw ≠ "") (q : Path) : (p.join q).raw ≠ "" := by
  cases absolute : q.isAbsolute with
  | true =>
    rw [join_of_isAbsolute p absolute]
    exact raw_ne_empty_of_isAbsolute absolute
  | false =>
    rw [join_of_relative nonempty absolute]
    exact RawText.append_ne_empty_of_left p.slashed_ne_empty q.raw

/-! ## The last component -/

theorem fileName?_congr (same : p.components = q.components) : p.fileName? = q.fileName? := by
  rw [fileName?, same, fileName?]

/-- A name joined to a path is the last component. -/
theorem fileName?_join {name : RawText} (named : IsSegment name) (p : Path) :
    (p.join ⟨name⟩).fileName? = some name := by
  rw [fileName?, components_join p named, List.getLast?_concat]

/-- A path that ends in a name ends in it behind every base. -/
theorem fileName?_join_of_eq_some {name : RawText} (h : q.fileName? = some name) (p : Path) :
    (p.join q).fileName? = some name := by
  cases absolute : q.isAbsolute with
  | true => rwa [join_of_isAbsolute p absolute]
  | false =>
    by_cases empty : p.raw = ""
    · rwa [join_of_empty empty]
    · have last : (bodyComponents q.segments).getLast? = some (.name name) := by
        rw [fileName?, components_eq, List.getLast?_append] at h
        cases ends : (bodyComponents q.segments).getLast? with
        | some component =>
          rw [ends, Option.some_or] at h
          cases component <;> cases h
          rfl
        | none =>
          -- a lead is no name
          rw [ends, Option.none_or] at h
          rcases q.lead_cases with lead | lead | lead <;> rw [lead] at h <;> cases h
      rw [fileName?, components_join_relative absolute empty, List.getLast?_append, last,
        Option.some_or]

/-! ## Going down by names -/

/-- A path that goes down by names ends in the last of them. -/
theorem getLast?_segments_descend {way : Location} {last : RawText}
    (named : ∀ name ∈ way, IsName name) (ends : way.getLast? = some last)
    (nonempty : p.raw ≠ "") : (p.descend way).segments.getLast? = some last := by
  induction way generalizing p with
  | nil => cases ends
  | cons name way ih =>
    obtain ⟨own, others⟩ := List.forall_mem_cons.mp named
    rw [descend_cons]
    by_cases none : way = []
    · subst none
      obtain rfl : name = last := Option.some.inj ends
      obtain ⟨_, front, _, _, joined⟩ := segments_join own.toIsSegment nonempty
      rw [descend_nil, joined, List.getLast?_concat]
    · refine ih others ?_ (raw_join_ne_empty nonempty _)
      rwa [List.getLast?_cons, List.getLast?_eq_some_getLast none, Option.getD_some,
        ← List.getLast?_eq_some_getLast none] at ends

/-- Going down by names can be done before joining or after it. -/
theorem join_descend (a b : Path) (names : Location) :
    a.join (b.descend names) = (a.join b).descend names := by
  induction names generalizing b with
  | nil => rfl
  | cons name names ih => rw [descend_cons, ih, descend_cons, join_assoc]

end BuildRunner.Path
