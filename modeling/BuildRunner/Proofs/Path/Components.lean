import BuildRunner.Proofs.Text.Raw
import BuildRunner.Tree.Resolve

/-!
# Paths that go down by names

A name that an entry of a directory can have is one segment of a path and one component. Joining it
to a path therefore adds this one component behind those of the path, whatever the path is: empty,
absolute, or with slashes at its end. Descending by several names adds one component for each, and
from these the names can be read off again.
-/

namespace BuildRunner

/-- A raw text that is one step down wherever it stands in a path. -/
structure IsSegment (name : RawText) : Prop where
  ne_empty : name ≠ ""
  ne_here : name ≠ "."
  ne_up : name ≠ ".."
  no_slash : Path.slash ∉ name.bytes
  no_nul : 0 ∉ name.bytes

/-- A raw text that an entry of a directory can have as its name. -/
structure IsName (name : RawText) : Prop extends IsSegment name where
  short : name.bytes.length ≤ nameLimit

instance (name : RawText) : Decidable (IsSegment name) :=
  decidable_of_iff
    (name ≠ "" ∧ name ≠ "." ∧ name ≠ ".." ∧ Path.slash ∉ name.bytes ∧ 0 ∉ name.bytes)
    ⟨fun ⟨h₁, h₂, h₃, h₄, h₅⟩ => ⟨h₁, h₂, h₃, h₄, h₅⟩,
      fun ⟨h₁, h₂, h₃, h₄, h₅⟩ => ⟨h₁, h₂, h₃, h₄, h₅⟩⟩

instance (name : RawText) : Decidable (IsName name) :=
  decidable_of_iff (IsSegment name ∧ name.bytes.length ≤ nameLimit)
    ⟨fun ⟨h, short⟩ => ⟨h, short⟩, fun h => ⟨h.toIsSegment, h.short⟩⟩

instance {name : RawText} : Coe (IsName name) (IsSegment name) := ⟨IsName.toIsSegment⟩

/-- A name stands for itself behind the lead of a path. -/
theorem IsSegment.not_filler {name : RawText} (h : IsSegment name) :
    Path.isFiller name = false := by
  simp [Path.isFiller, h.ne_empty, h.ne_here]

/-- A name is a step of its own. -/
theorem IsSegment.ofSegment {name : RawText} (h : IsSegment name) :
    Step.ofSegment name = .name name := by
  rw [Step.ofSegment, if_neg h.ne_here, if_neg h.ne_up]

namespace Path

variable {p : Path} {name : RawText}

/-! ## Segments -/

@[simp] theorem utf8_slash : Text.utf8 "/" = [slash] :=
  rfl

@[simp] theorem filled_append (a b : List RawText) : filled (a ++ b) = filled a ++ filled b :=
  List.filter_append a b

@[simp] theorem filled_empty : filled [""] = [] :=
  rfl

theorem filled_cons (nonempty : name ≠ "") (segments : List RawText) :
    filled (name :: segments) = name :: filled segments :=
  List.filter_cons_of_pos (decide_eq_true nonempty)

@[simp] theorem filled_singleton (nonempty : name ≠ "") : filled [name] = [name] :=
  filled_cons nonempty []

/-- The segments of two paths with a slash between them. -/
theorem pieces_append_slash (a b : RawText) :
    (a ++ "/" ++ b).pieces slash = a.pieces slash ++ b.pieces slash :=
  RawText.pieces_append slash a b

/-- A raw text without a slash is a single segment. -/
theorem pieces_of_not_mem {segment : RawText} (plain : slash ∉ segment.bytes) :
    segment.pieces slash = [segment] :=
  RawText.pieces_of_not_mem plain

/-- A name is a single segment. -/
theorem pieces_name (h : IsSegment name) : name.pieces slash = [name] :=
  pieces_of_not_mem h.no_slash

/-- No segment holds a slash. -/
theorem not_mem_of_mem_segments {segment : RawText} (h : segment ∈ p.segments) :
    slash ∉ segment.bytes :=
  RawText.not_mem_of_mem_pieces h

/-- A path has at least one segment. -/
theorem segments_ne_nil (p : Path) : p.segments ≠ [] :=
  RawText.pieces_ne_nil slash p.raw

/-- A path is its segments with slashes between them. -/
theorem intercalate_segments (p : Path) : RawText.intercalate "/" p.segments = p.raw :=
  RawText.intercalate_pieces slash p.raw

/-- The first segment of an absolute path is the empty one before its slash. -/
theorem head?_segments_of_isAbsolute (h : p.isAbsolute = true) :
    p.segments.head? = some ("" : RawText) := by
  obtain ⟨rest, bytes⟩ : ∃ rest, p.raw.bytes = slash :: rest :=
    List.head?_eq_some_iff.mp (of_decide_eq_true h)
  rw [segments, RawText.pieces, bytes, Text.splitAtEach_cons_self]
  rfl

/-! ## Components -/

/-- A path starts with a slash, with a `.`, or with an ordinary segment. -/
theorem lead_cases (p : Path) : p.lead = none ∨ p.lead = some .root ∨ p.lead = some .here := by
  rw [Path.lead]
  split
  · exact .inr (.inl rfl)
  · split
    · exact .inr (.inr rfl)
    · exact .inl rfl

/-- The lead stands in a filler, so the components behind it are those of all segments. -/
theorem components_eq (p : Path) :
    p.components = p.lead.toList ++ bodyComponents p.segments := by
  have skip {segment : RawText} (filler : isFiller segment = true)
      (head : p.segments.head? = some segment) :
      bodyComponents p.segments.tail = bodyComponents p.segments := by
    obtain ⟨rest, segments⟩ := List.head?_eq_some_iff.mp head
    simp [bodyComponents, segments, filler]
  rw [components, body]
  split
  · next led =>
    rw [lead] at led
    split at led
    · next absolute => rw [skip rfl (head?_segments_of_isAbsolute absolute)]
    · split at led
      · next here => rw [skip rfl here]
      · cases led
  · rfl

theorem segment_componentOf (segment : RawText) : (componentOf segment).segment = segment := by
  rw [componentOf]
  split
  · next up => exact up.symm
  · rfl

theorem bodyComponents_append (a b : List RawText) :
    bodyComponents (a ++ b) = bodyComponents a ++ bodyComponents b := by
  rw [bodyComponents, List.filter_append, List.map_append]
  rfl

/-- A segment that is a name adds its component. -/
theorem bodyComponents_concat (h : IsSegment name) (segments : List RawText) :
    bodyComponents (segments ++ [name]) = bodyComponents segments ++ [.name name] := by
  simp [bodyComponents, h.not_filler, componentOf, h.ne_up]

/-- An empty segment adds no component. -/
theorem bodyComponents_concat_empty (segments : List RawText) :
    bodyComponents (segments ++ [("" : RawText)]) = bodyComponents segments := by
  simp [bodyComponents, isFiller]

/-! ## Joining -/

/-- A name is a relative path. -/
theorem isAbsolute_name (h : IsSegment name) : (Path.mk name).isAbsolute = false := by
  rw [isAbsolute, decide_eq_false_iff_not]
  intro head
  exact h.no_slash (List.mem_of_head? head)

/-- A path that another begins with starts as that one does. -/
theorem isAbsolute_append {a : RawText} (nonempty : a ≠ "") (b : RawText) :
    (Path.mk (a ++ b)).isAbsolute = (Path.mk a).isAbsolute := by
  obtain ⟨byte, rest, bytes⟩ : ∃ byte rest, a.bytes = byte :: rest :=
    List.exists_cons_of_ne_nil fun none => nonempty (RawText.bytes_eq_nil_iff.mp none)
  simp [isAbsolute, bytes]

/-- A path that ends in a slash has an empty last segment. -/
theorem exists_eq_append_slash (h : p.raw.bytes.getLast? = some slash) :
    ∃ front : RawText, p.raw = front ++ "/" ∧
      p.segments = front.pieces slash ++ [("" : RawText)] := by
  obtain ⟨front, ends⟩ := List.getLast?_eq_some_iff.mp h
  have raw : p.raw = ⟨front⟩ ++ "/" := RawText.ext ends
  have closed := pieces_append_slash ⟨front⟩ ""
  rw [RawText.append_empty, ← raw] at closed
  exact ⟨_, raw, closed⟩

/-- What joining a relative path to another one does to its segments: an empty one at the end is
replaced, any other is kept. -/
theorem segments_join_relative {q : Path} (relative : q.isAbsolute = false)
    (nonempty : p.raw ≠ "") :
    (p.join q).isAbsolute = p.isAbsolute ∧
      ∃ front, front ≠ [] ∧ (p.segments = front ∨ p.segments = front ++ [("" : RawText)]) ∧
        (p.join q).segments = front ++ q.segments := by
  have behind : (q.isAbsolute || p.raw = "") = false := by simp [relative, nonempty]
  rw [join, behind, if_neg Bool.false_ne_true]
  split
  · next ends =>
    obtain ⟨front, raw, closed⟩ := exists_eq_append_slash ends
    refine ⟨isAbsolute_append nonempty q.raw, front.pieces slash, segments_ne_nil ⟨front⟩,
      .inr closed, ?_⟩
    rw [segments, raw, pieces_append_slash]
    rfl
  · refine ⟨?_, p.segments, segments_ne_nil p, .inl rfl, ?_⟩
    · rw [RawText.append_assoc]
      exact isAbsolute_append nonempty _
    · rw [segments, pieces_append_slash]
      rfl

/-- Joining a relative path to one that is not empty adds the components of its segments. A `.` that
the path starts with names nothing of its own there. -/
theorem components_join_relative {q : Path} (relative : q.isAbsolute = false)
    (nonempty : p.raw ≠ "") :
    (p.join q).components = p.components ++ bodyComponents q.segments := by
  obtain ⟨absolute, front, more, segments, joined⟩ := segments_join_relative relative nonempty
  obtain ⟨first, others, rfl⟩ := List.exists_cons_of_ne_nil more
  have lead : (p.join q).lead = p.lead := by
    rcases segments with same | closed
    · simp [Path.lead, absolute, joined, same]
    · simp [Path.lead, absolute, joined, closed]
  have body : bodyComponents p.segments = bodyComponents (first :: others) := by
    rcases segments with same | closed
    · rw [same]
    · rw [closed, bodyComponents_concat_empty]
  rw [components_eq, components_eq, lead, joined, bodyComponents_append, body, List.append_assoc]

/-- Joining a name adds its segment. -/
theorem segments_join (h : IsSegment name) (nonempty : p.raw ≠ "") :
    (p.join ⟨name⟩).isAbsolute = p.isAbsolute ∧
      ∃ front, front ≠ [] ∧ (p.segments = front ∨ p.segments = front ++ [("" : RawText)]) ∧
        (p.join ⟨name⟩).segments = front ++ [name] := by
  have single : (Path.mk name).segments = [name] := pieces_name h
  rw [← single]
  exact segments_join_relative (isAbsolute_name h) nonempty

/-- A path to which a name was joined ends in the segment of this name. -/
theorem getLast?_segments_join (p : Path) (h : IsSegment name) :
    (p.join ⟨name⟩).segments.getLast? = some name := by
  by_cases empty : p.raw = ""
  · have alone : p.join ⟨name⟩ = ⟨name⟩ := by simp [join, empty]
    rw [alone, segments, pieces_name h, List.getLast?_singleton]
  · obtain ⟨_, front, _, _, joined⟩ := segments_join h empty
    rw [joined, List.getLast?_concat]

/-- Joining a name adds it as the last component. -/
theorem components_join (p : Path) (h : IsSegment name) :
    (p.join ⟨name⟩).components = p.components ++ [.name name] := by
  by_cases empty : p.raw = ""
  · have own : p = ⟨""⟩ := by
      cases p
      exact congrArg _ empty
    have alone : (p.join ⟨name⟩) = ⟨name⟩ := by simp [join, empty]
    have lead : (Path.mk name).lead = none := by
      simp [Path.lead, isAbsolute_name h, segments, pieces_name h, h.ne_here]
    rw [alone, components_eq, lead, segments, pieces_name h, own]
    exact bodyComponents_concat h []
  · have single : (Path.mk name).segments = [name] := pieces_name h
    rw [components_join_relative (isAbsolute_name h) empty, single]
    exact congrArg _ (bodyComponents_concat h [])

/-! ## Descending -/

/-- The path that goes down from a path by names. -/
def descend (p : Path) (names : Location) : Path :=
  names.foldl (fun p name => p.join ⟨name⟩) p

@[simp] theorem descend_nil (p : Path) : p.descend [] = p :=
  rfl

@[simp] theorem descend_cons (p : Path) (name : RawText) (names : Location) :
    p.descend (name :: names) = (p.join ⟨name⟩).descend names :=
  rfl

/-- Going down by names adds these names as components. -/
theorem components_descend (p : Path) {names : Location} (h : ∀ name ∈ names, IsName name) :
    (p.descend names).components = p.components ++ names.map .name := by
  induction names generalizing p with
  | nil => simp
  | cons name names ih =>
    obtain ⟨hname, hnames⟩ := List.forall_mem_cons.mp h
    rw [descend_cons, ih _ hnames, components_join p hname, List.append_assoc]
    rfl

/-- Different ways down lead to different paths. -/
theorem descend_injective (p : Path) {a b : Location} (ha : ∀ name ∈ a, IsName name)
    (hb : ∀ name ∈ b, IsName name) (same : p.descend a = p.descend b) : a = b := by
  have components : p.components ++ a.map .name = p.components ++ b.map .name := by
    rw [← components_descend p ha, ← components_descend p hb, same]
  exact (List.map_inj_right fun _ _ h => Component.name.inj h).mp
    (List.append_cancel_left components)

end Path

end BuildRunner
