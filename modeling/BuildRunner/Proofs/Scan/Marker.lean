import BuildRunner.Proofs.Text.Blank
import BuildRunner.Proofs.Text.Lines
import BuildRunner.Scan.Marker

/-!
# Extraction goes line by line

What is extracted from a text is extracted from each of its lines alone, whichever way the lines are
ended. So a text can be cut at any line end, carriage returns can be put before its line feeds, and
the end of its last line can be added or left out, and the same lines are selected.

Line splitting and the markers have to agree for this. A carriage return at the end of a line is
dropped in one place and kept in another: it is kept where no line feed follows. No marker minds it,
and it is trimmed in the end. Therefore the selected lines can be read off the pieces between line
feeds (`extractChars_eq`), and cutting at line feeds is a homomorphism.
-/

namespace BuildRunner.Marker

open Text

variable {marker : Marker}

/-! ## Carriage returns at the end of a line -/

/-- A carriage return behind a line does not matter to a marker. -/
theorem selects_concat (marker : Marker) (line : List Char) :
    marker.selects (line ++ ['\r']) = marker.selects line := by
  -- neither word ends in a carriage return, so it stands in the line itself
  cases marker with
  | documentation =>
    have front : slashes.isPrefixOf (line ++ ['\r']) = slashes.isPrefixOf line := by
      rw [Bool.eq_iff_iff, List.isPrefixOf_iff_prefix, List.isPrefixOf_iff_prefix,
        List.prefix_concat_iff, or_iff_right]
      intro whole
      have last := congrArg List.getLast? whole
      rw [List.getLast?_concat] at last
      exact absurd last (by decide)
    rw [selects, selects, front, trim_concat (by decide)]
  | todo =>
    rw [selects, selects, Bool.eq_iff_iff, occursIn_iff, occursIn_iff, List.infix_concat_iff,
      or_iff_right]
    intro atEnd
    rcases List.suffix_concat_iff.mp atEnd with none | ⟨rest, whole, _⟩
    · cases none
    · have last := congrArg List.getLast? whole
      rw [List.getLast?_concat] at last
      exact absurd last (by decide)

/-- A line that loses its carriage return is selected as before, and is trimmed to the same. -/
theorem dropCarriageReturn_cases (marker : Marker) (line : List Char) :
    marker.selects (dropCarriageReturn line) = marker.selects line ∧
      trim (dropCarriageReturn line) = trim line := by
  rw [dropCarriageReturn]
  split
  · next ended =>
    obtain ⟨front, rfl⟩ := List.getLast?_eq_some_iff.mp ended
    rw [List.dropLast_concat, selects_concat, trim_concat (by decide)]
    exact ⟨rfl, rfl⟩
  · exact ⟨rfl, rfl⟩

/-- No marker selects the empty line. -/
theorem selects_nil (marker : Marker) : marker.selects [] = false := by
  cases marker <;> rfl

/-! ## Pieces instead of lines -/

/-- What is extracted from lines: the selected ones, trimmed. -/
def extractLines (marker : Marker) (lines : List (List Char)) : List (List Char) :=
  (lines.filter marker.selects).map trim

theorem extractLines_append (first second : List (List Char)) :
    marker.extractLines (first ++ second) =
      marker.extractLines first ++ marker.extractLines second := by
  rw [extractLines, List.filter_append, List.map_append]
  rfl

theorem extractLines_singleton (line : List Char) :
    marker.extractLines [line] = if marker.selects line then [trim line] else [] := by
  cases selected : marker.selects line <;> simp [extractLines, selected]

theorem extractLines_dropCarriageReturn (lines : List (List Char)) :
    marker.extractLines (lines.map dropCarriageReturn) = marker.extractLines lines := by
  induction lines with
  | nil => rfl
  | cons line lines ih =>
    obtain ⟨selected, trimmed⟩ := dropCarriageReturn_cases marker line
    rw [List.map_cons, ← List.singleton_append, extractLines_append, ih, extractLines_singleton,
      selected, trimmed, ← extractLines_singleton, ← extractLines_append, List.singleton_append]

/-- Pieces are as good as lines. -/
theorem extractChars_eq (marker : Marker) (text : List Char) :
    marker.extractChars text = marker.extractLines (splitAtEach '\n' text) := by
  obtain ⟨before, last, pieces⟩ : ∃ before last, splitAtEach '\n' text = before ++ [last] :=
    ⟨_, _, (List.dropLast_concat_getLast (splitAtEach_ne_nil '\n' text)).symm⟩
  change marker.extractLines (lines text) = _
  rw [lines_of_pieces pieces, pieces, extractLines_append, extractLines_append,
    extractLines_dropCarriageReturn]
  split
  · next empty => rw [empty, extractLines_singleton, selects_nil]; rfl
  · rfl

/-! ## Texts behind each other -/

theorem extractChars_append_feed (marker : Marker) (a b : List Char) :
    marker.extractChars (a ++ '\n' :: b) = marker.extractChars a ++ marker.extractChars b := by
  rw [extractChars_eq, splitAtEach_append_cons, extractLines_append, ← extractChars_eq,
    ← extractChars_eq]

theorem extractChars_concat_return (marker : Marker) (text : List Char) :
    marker.extractChars (text ++ ['\r']) = marker.extractChars text := by
  obtain ⟨before, last, pieces, pieces'⟩ :=
    splitAtEach_concat_of_ne (show '\r' ≠ '\n' by decide) text
  rw [extractChars_eq, extractChars_eq, pieces, pieces', extractLines_append, extractLines_append,
    extractLines_singleton, extractLines_singleton, selects_concat, trim_concat (by decide)]

theorem extractChars_append {lineEnd : String} (ends : lineEnd ∈ lineEnds) (a b : List Char) :
    marker.extractChars (a ++ lineEnd.toList ++ b) =
      marker.extractChars a ++ marker.extractChars b := by
  rw [lineEnds, List.mem_cons, List.mem_singleton] at ends
  rcases ends with rfl | rfl
  · have feed : a ++ "\n".toList ++ b = a ++ '\n' :: b := List.append_assoc a ['\n'] b
    rw [feed, extractChars_append_feed]
  · have feed : a ++ "\r\n".toList ++ b = (a ++ ['\r']) ++ '\n' :: b := by simp
    rw [feed, extractChars_append_feed, extractChars_concat_return]

/-- Carriage returns before line feeds do not matter. `front` is what stands in the line already. -/
theorem extractChars_of_returnsAdded {text text' : List Char} (added : ReturnsAdded text text')
    (front : List Char) :
    marker.extractChars (front ++ text') = marker.extractChars (front ++ text) := by
  induction added generalizing front with
  | nil => rfl
  | keep c _ ih => simpa using ih (front ++ [c])
  | @feed text text' _ ih =>
    -- behind the line feed both texts start afresh
    have fresh : marker.extractChars text' = marker.extractChars text := ih []
    have returned : front ++ '\r' :: '\n' :: text' = front ++ "\r\n".toList ++ text' := by simp
    rw [returned, extractChars_append (by decide), fresh, extractChars_append_feed]

theorem extract_append (marker : Marker) {lineEnd : String} (ends : lineEnd ∈ lineEnds)
    (a b : String) :
    marker.extract (a ++ lineEnd ++ b) = marker.extract a ++ marker.extract b := by
  rw [extract, String.toList_append, String.toList_append, extractChars_append ends,
    List.map_append]
  rfl

/-- **Extraction goes line by line.** For each marker: what is extracted from two texts with a line
end between them, of either kind, is what is extracted from the first and then from the second,
whatever the first one ends in. So it makes no difference to put carriage returns before any line
feeds of a text, nor to end its last line or not. -/
theorem extract_goes_line_by_line (marker : Marker) :
    (∀ lineEnd ∈ lineEnds, ∀ a b : String,
      marker.extract (a ++ lineEnd ++ b) = marker.extract a ++ marker.extract b) ∧
    (∀ text text' : String, ReturnsAdded text.toList text'.toList →
      marker.extract text' = marker.extract text) ∧
    ∀ lineEnd ∈ lineEnds, ∀ text : String,
      marker.extract (text ++ lineEnd) = marker.extract text := by
  refine ⟨fun _ ends a b => extract_append marker ends a b, fun text text' added => ?_,
    fun lineEnd ends text => ?_⟩
  · have same : marker.extractChars text'.toList = marker.extractChars text.toList :=
      extractChars_of_returnsAdded added []
    rw [extract, same, extract]
  · have nothing : marker.extract "" = [] := by cases marker <;> rfl
    have empty := extract_append marker ends text ""
    rwa [nothing, List.append_nil, String.append_empty] at empty

/-- A carriage return that no line feed follows stays in its line. One that is put before a line
feed makes no difference, nor does an empty line at the end. -/
theorem extract_goes_line_by_line_returned :
    ReturnsAdded "a TODO b\rc\n".toList "a TODO b\rc\r\n".toList ∧ "\r\n" ∈ lineEnds ∧
      Marker.todo.extract "a TODO b\rc\n" = ["a TODO b\rc"] ∧
      Marker.todo.extract "a TODO b\rc\r\n" = ["a TODO b\rc"] ∧
      Marker.todo.extract ("a TODO b\rc\r\n" ++ "\r\n") = ["a TODO b\rc"] := by
  have added : ReturnsAdded "a TODO b\rc\n".toList "a TODO b\rc\r\n".toList :=
    .append_left "a TODO b\rc".toList (.feed .nil)
  have ends : "\r\n" ∈ lineEnds := by decide
  have plain : Marker.todo.extract "a TODO b\rc\n" = ["a TODO b\rc"] := by decide +kernel
  obtain ⟨_, returns, lasts⟩ := extract_goes_line_by_line .todo
  have returned := (returns _ _ added).trans plain
  exact ⟨added, ends, plain, returned, (lasts _ ends _).trans returned⟩

end BuildRunner.Marker
