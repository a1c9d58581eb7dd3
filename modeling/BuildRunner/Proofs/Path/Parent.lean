import BuildRunner.Proofs.Path.Prefix

/-!
# The parent of an absolute path

An absolute path has the components of its parent and one more, and as it was written it starts with
its parent. Segments that name nothing, `.` and empty ones, count for nothing at the end:
they are dropped before the last component is taken off, and again behind what is left.
-/

namespace BuildRunner.Path

variable {p q : Path} {name : RawText} {segments : List RawText}

/-! ## Segments with slashes between them -/

/-- What the first ones of some segments give is a first part of what they give. -/
theorem exists_intercalate_append (front back : List RawText) : ∃ rest,
    RawText.intercalate "/" (front ++ back) = RawText.intercalate "/" front ++ rest := by
  by_cases none : front = []
  · subst none
    exact ⟨_, (RawText.empty_append _).symm⟩
  by_cases all : back = []
  · subst all
    exact ⟨"", by rw [List.append_nil, RawText.append_empty]⟩
  · exact ⟨_, by rw [RawText.intercalate_append_of_ne_nil none all, RawText.append_assoc]⟩

/-- An absolute path is a slash and the segments behind it. -/
theorem eq_ofParts_of_isAbsolute (absolute : p.isAbsolute = true) :
    p = ofParts (some .root) p.body := by
  have led : p.lead = some .root := by rw [lead, if_pos absolute]
  obtain ⟨rest, own⟩ := List.head?_eq_some_iff.mp (head?_segments_of_isAbsolute absolute)
  have body : p.body = rest := by
    rw [Path.body, led, own]
    rfl
  have text := p.intercalate_segments
  rw [own] at text
  have more : rest ≠ [] := by
    -- an empty segment alone would be an empty path
    rintro rfl
    exact raw_ne_empty_of_isAbsolute absolute text.symm
  rw [RawText.intercalate_cons_of_ne_nil more, RawText.empty_append] at text
  rw [body, ofParts]
  cases p
  exact congrArg _ text.symm

/-! ## The parent -/

/-- The segments behind a lead end in a name or `..`, once those that name nothing are dropped. -/
theorem isFiller_of_dropFillers {front : List RawText}
    (h : dropFillers segments = front ++ [name]) : isFiller name = false := by
  have last : (segments.reverse.dropWhile isFiller).head? = some name := by
    rw [← List.getLast?_reverse, ← dropFillers, h, List.getLast?_concat]
  have named := List.head?_dropWhile_not isFiller segments.reverse
  rw [last] at named
  exact named

/-- What the parent of an absolute path is made of. -/
theorem parent?_of_isAbsolute (absolute : p.isAbsolute = true) (h : p.parent? = some q) :
    ∃ front name, dropFillers p.body = front ++ [name] ∧ isFiller name = false ∧
      q = ofParts (some .root) (dropFillers front) := by
  have led : p.lead = some .root := by rw [lead, if_pos absolute]
  rw [parent?, led] at h
  cases body : dropFillers p.body with
  | nil =>
    rw [body] at h
    cases h
  | cons first rest =>
    rw [body] at h
    have split := List.dropLast_concat_getLast (List.cons_ne_nil first rest)
    refine ⟨(first :: rest).dropLast, (first :: rest).getLast (List.cons_ne_nil _ _), split.symm,
      isFiller_of_dropFillers (body.trans split.symm), ?_⟩
    exact (Option.some.inj h).symm

/-- An absolute path has the components of its parent and one more, which is a name or `..`. The
text of the parent is the first part of its own. -/
theorem of_parent? (absolute : p.isAbsolute = true) (h : p.parent? = some q) :
    q.isAbsolute = true ∧
      (∃ name, isFiller name = false ∧ p.components = q.components ++ [componentOf name]) ∧
      ∃ rest, p.raw = q.raw ++ rest := by
  obtain ⟨front, name, body, named, rfl⟩ := parent?_of_isAbsolute absolute h
  obtain ⟨fillers, whole, _⟩ := exists_eq_dropFillers_append p.body
  obtain ⟨dropped, above, _⟩ := exists_eq_dropFillers_append front
  have led : p.lead = some .root := by rw [lead, if_pos absolute]
  have plain : ∀ s ∈ dropFillers front, slash ∉ s.bytes := by
    intro s mem
    refine not_mem_of_mem_body (p := p) (mem_of_mem_dropFillers ?_)
    rw [body]
    exact List.mem_append_left _ (mem_of_mem_dropFillers mem)
  obtain ⟨lead, own, _⟩ := ofParts_segments (.inr (.inl rfl)) plain fun none => by cases none
  refine ⟨?_, ⟨name, named, ?_⟩, ?_⟩
  · simp [ofParts, isAbsolute]
  · have last : bodyComponents [name] = [componentOf name] := by simp [bodyComponents, named]
    rw [components_eq (ofParts _ _), lead, own, bodyComponents_dropFillers, Path.components, led,
      ← bodyComponents_dropFillers p.body, body, bodyComponents_append, last, List.append_assoc]
  · obtain ⟨rest, text⟩ := exists_intercalate_append (dropFillers front)
      (dropped ++ [name] ++ fillers)
    refine ⟨rest, ?_⟩
    have segments : p.body = dropFillers front ++ (dropped ++ [name] ++ fillers) := by
      rw [← List.append_assoc, ← List.append_assoc, ← above, ← body, ← whole]
    have same := congrArg Path.raw (eq_ofParts_of_isAbsolute absolute)
    rw [same, ofParts, ofParts, segments, text, RawText.append_assoc]

end BuildRunner.Path
