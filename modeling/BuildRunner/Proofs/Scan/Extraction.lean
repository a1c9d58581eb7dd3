import BuildRunner.Proofs.Scan.Decoding
import BuildRunner.Proofs.Scan.Marker

/-!
# What is extracted is extracted again

A line is selected as it stands in its text and trimmed afterwards. Trimming could lose what it was
selected for, but does not: neither word that a marker looks for has blanks at its ends, so trimming
leaves it whole where it stands. A line that is shown is therefore selected as it is shown.

This makes extraction a projection. The lines that are shown, joined by line feeds, are cut into the
same lines again, whatever else they hold: a carriage return inside a line has no line feed behind
it, and one at the end of a line has been trimmed.
-/

namespace BuildRunner.Marker

open Text

variable {marker : Marker}

/-! ## Selected lines, trimmed -/

theorem trimmed_slashes : Trimmed slashes := by
  constructor
  · rintro _ ⟨⟩
    decide
  · rintro _ ⟨⟩
    decide

theorem trimmed_todoWord : Trimmed todoWord := by
  constructor
  · rintro _ ⟨⟩
    decide
  · rintro _ ⟨⟩
    decide

/-- A selected line is selected when it is trimmed. -/
theorem selects_trim {line : List Char} (selected : marker.selects line = true) :
    marker.selects (trim line) = true := by
  cases marker with
  | documentation =>
    obtain ⟨starts, more⟩ := Bool.and_eq_true_iff.mp selected
    obtain ⟨behind, rfl⟩ := List.isPrefixOf_iff_prefix.mp starts
    have kept : trim (slashes ++ behind) = slashes ++ trimBack behind :=
      trim_around trimmed_slashes (by decide) [] behind
    rw [selects, trim_trim, more, Bool.and_true, List.isPrefixOf_iff_prefix, kept]
    exact List.prefix_append _ _
  | todo =>
    obtain ⟨before, behind, rfl⟩ := occursIn_iff.mp selected
    rw [selects, occursIn_iff, trim_around trimmed_todoWord (by decide)]
    exact List.infix_append _ _ _

/-- A line that stands for itself: it is trimmed and selected, and it is a single line. -/
structure Shows (marker : Marker) (line : String) : Prop where
  selected : marker.selectsLine line = true
  trimmed : Trimmed line.toList
  single : '\n' ∉ line.toList

/-- What is extracted stands for itself. -/
theorem shows_of_mem_extract {text line : String} (h : line ∈ marker.extract text) :
    marker.Shows line := by
  have single := newline_not_mem_extract h
  obtain ⟨shown, mem, rfl⟩ := List.mem_map.mp h
  obtain ⟨raw, chosen, rfl⟩ := List.mem_map.mp mem
  refine ⟨?_, ?_, single⟩
  · rw [selectsLine, String.toList_ofList]
    exact selects_trim (List.mem_filter.mp chosen).2
  · rw [String.toList_ofList]
    exact trimmed_trim raw

namespace Shows

variable {line : String}

/-- No marker selects nothing. -/
theorem ne_empty (h : marker.Shows line) : line ≠ "" := by
  rintro rfl
  have none : marker.selects [] = true := h.selected
  rw [selects_nil] at none
  cases none

/-- A documentation comment says something behind its slashes. -/
theorem slashes_isPrefixOf (h : documentation.Shows line) :
    slashes <+: line.toList ∧ slashes.length < line.length := by
  obtain ⟨starts, more⟩ := Bool.and_eq_true_iff.mp h.selected
  rw [trim_eq_self h.trimmed] at more
  have front := List.isPrefixOf_iff_prefix.mp starts
  refine ⟨front, ?_⟩
  rw [← String.length_toList]
  refine Nat.lt_of_le_of_ne front.length_le fun same => ?_
  simp [front.eq_of_length same] at more

theorem todoWord_infix (h : todo.Shows line) : todoWord <:+: line.toList :=
  occursIn_iff.mp h.selected

/-- From a line that stands for itself, it is extracted and nothing else. -/
theorem extract_eq (h : marker.Shows line) : marker.extract line = [line] := by
  have selected : marker.selects line.toList = true := h.selected
  rw [extract, extractChars_eq, splitAtEach_of_not_mem h.single, extractLines_singleton,
    if_pos selected, trim_eq_self h.trimmed, List.map_singleton, String.ofList_toList]

end Shows

/-- From lines that stand for themselves, put one below the other, these are extracted. -/
theorem extract_intercalate {lines : List String} (shown : ∀ line ∈ lines, marker.Shows line) :
    marker.extract (String.intercalate "\n" lines) = lines := by
  induction lines with
  | nil => cases marker <;> rfl
  | cons line lines ih =>
    obtain ⟨first, others⟩ := List.forall_mem_cons.mp shown
    cases lines with
    | nil => rw [String.intercalate_singleton, first.extract_eq]
    | cons next rest =>
      rw [String.intercalate_cons_cons, extract_append marker (by decide), first.extract_eq,
        ih others, List.singleton_append]

/-- **Extraction is a projection.** Every line that a marker extracts from a text is not empty,
holds no line feed, neither starts nor ends with a blank, and is selected by the marker as it is: a
documentation comment starts with its slashes and goes on, and what is still to do is mentioned. So
the extracted lines, joined by line feeds, are extracted from what they make up. -/
theorem extracted_lines_are_extracted_again (marker : Marker) (text : String) :
    (∀ line ∈ marker.extract text,
      line ≠ "" ∧ '\n' ∉ line.toList ∧
      (∀ c, line.toList.head? = some c ∨ line.toList.getLast? = some c → isBlank c = false) ∧
      marker.selectsLine line = true ∧
      (marker = documentation → "///".toList <+: line.toList ∧ 3 < line.length) ∧
      (marker = todo → "TODO".toList <:+: line.toList)) ∧
    marker.extract (String.intercalate "\n" (marker.extract text)) = marker.extract text := by
  refine ⟨fun line mem => ?_, extract_intercalate fun line => shows_of_mem_extract⟩
  have shown := shows_of_mem_extract mem
  refine ⟨shown.ne_empty, shown.single, fun c => ?_, shown.selected, ?_, ?_⟩
  · rintro (first | last)
    · exact shown.trimmed.front c first
    · exact shown.trimmed.back c last
  · rintro rfl
    exact shown.slashes_isPrefixOf
  · rintro rfl
    exact shown.todoWord_infix

/-- A carriage return inside a line stays, and blanks of any kind around it go. -/
theorem extracted_lines_are_extracted_again_returned :
    let text := "\u00A0a TODO\rb\u2003\r\n///\n\tTODO\u2028\r"
    "a TODO\rb" ∈ todo.extract text ∧ "a TODO\rb" ≠ "" ∧ '\n' ∉ "a TODO\rb".toList ∧
      todo.selectsLine "a TODO\rb" = true ∧
      todo.extract (String.intercalate "\n" ["a TODO\rb", "TODO"]) = ["a TODO\rb", "TODO"] := by
  intro text
  have extracted : todo.extract text = ["a TODO\rb", "TODO"] := by decide +kernel
  obtain ⟨lines, again⟩ := extracted_lines_are_extracted_again todo text
  rw [extracted] at lines again
  have mem : "a TODO\rb" ∈ ["a TODO\rb", "TODO"] := List.mem_cons_self
  obtain ⟨nonempty, single, _, selected, _⟩ := lines _ mem
  exact ⟨extracted ▸ mem, nonempty, single, selected, again⟩

end BuildRunner.Marker
