import BuildRunner.Text.Lines

/-!
# Pieces and lines

Cutting at a separator turns the separators into the places between pieces: no piece holds one, and
cutting two texts with a separator between them gives the pieces of the first followed by those of
the second. These two facts determine the pieces, and all that is said of lines rests on them.
-/

namespace BuildRunner.Text

variable {α : Type} [DecidableEq α] {separator : α}

/-- A text ends as what is appended to it. -/
theorem getLast?_toList_append (front : String) {ending : String} (nonempty : ending ≠ "") :
    (front ++ ending).toList.getLast? = ending.toList.getLast? := by
  have more : ending.toList ≠ [] := fun none => nonempty (String.toList_eq_nil_iff.mp none)
  rw [String.toList_append, List.getLast?_append, List.getLast?_eq_some_getLast more,
    Option.some_or]

/-! ## Pieces -/

/-- A text has at least one piece. -/
theorem splitAtEach_ne_nil (separator : α) (text : List α) :
    splitAtEach separator text ≠ [] := by
  cases text with
  | nil => simp [splitAtEach]
  | cons c rest =>
    rw [splitAtEach]
    split
    · simp
    · split <;> simp

/-- A separator in front ends an empty piece. -/
@[simp] theorem splitAtEach_cons_self (separator : α) (text : List α) :
    splitAtEach separator (separator :: text) = [] :: splitAtEach separator text := by
  cases pieces : splitAtEach separator text with
  | nil => exact absurd pieces (splitAtEach_ne_nil separator text)
  | cons piece rest => simp [splitAtEach, pieces]

/-- Any other character in front belongs to the first piece. -/
theorem splitAtEach_cons_of_ne {c : α} (ne : c ≠ separator) {text piece : List α}
    {rest : List (List α)} (pieces : splitAtEach separator text = piece :: rest) :
    splitAtEach separator (c :: text) = (c :: piece) :: rest := by
  simp [splitAtEach, pieces, ne]

/-- The pieces of two texts with a separator between them. -/
theorem splitAtEach_append_cons (separator : α) (first second : List α) :
    splitAtEach separator (first ++ separator :: second) =
      splitAtEach separator first ++ splitAtEach separator second := by
  induction first with
  | nil => exact splitAtEach_cons_self separator second
  | cons c first ih =>
    by_cases same : c = separator
    · subst same
      rw [List.cons_append, splitAtEach_cons_self, splitAtEach_cons_self, ih, List.cons_append]
    · cases pieces : splitAtEach separator first with
      | nil => exact absurd pieces (splitAtEach_ne_nil separator first)
      | cons piece rest =>
        rw [pieces] at ih
        rw [List.cons_append, splitAtEach_cons_of_ne same ih, splitAtEach_cons_of_ne same pieces]
        rfl

/-- A text without a separator is its only piece. -/
theorem splitAtEach_of_not_mem {text : List α} (h : separator ∉ text) :
    splitAtEach separator text = [text] := by
  induction text with
  | nil => rfl
  | cons c text ih =>
    have ne : c ≠ separator := (List.ne_of_not_mem_cons h).symm
    exact splitAtEach_cons_of_ne ne (ih (List.not_mem_of_not_mem_cons h))

/-- No piece holds a separator. -/
theorem not_mem_of_mem_splitAtEach {text piece : List α}
    (h : piece ∈ splitAtEach separator text) : separator ∉ piece := by
  induction text generalizing piece with
  | nil =>
    cases List.mem_singleton.mp h
    exact List.not_mem_nil
  | cons c text ih =>
    by_cases same : c = separator
    · subst same
      rw [splitAtEach_cons_self] at h
      rcases List.mem_cons.mp h with rfl | h
      · exact List.not_mem_nil
      · exact ih h
    · cases pieces : splitAtEach separator text with
      | nil => exact absurd pieces (splitAtEach_ne_nil separator text)
      | cons first rest =>
        rw [splitAtEach_cons_of_ne same pieces] at h
        rw [pieces] at ih
        rcases List.mem_cons.mp h with rfl | h
        · exact List.not_mem_cons_of_ne_of_not_mem (Ne.symm same) (ih List.mem_cons_self)
        · exact ih (List.mem_cons_of_mem first h)

/-- The pieces with the separator between them are the text. -/
theorem intercalate_splitAtEach (separator : α) (text : List α) :
    [separator].intercalate (splitAtEach separator text) = text := by
  induction text with
  | nil => rfl
  | cons c text ih =>
    by_cases same : c = separator
    · subst same
      rw [splitAtEach_cons_self, List.intercalate_cons_of_ne_nil (splitAtEach_ne_nil c text), ih]
      rfl
    · obtain ⟨piece, rest, pieces⟩ := List.exists_cons_of_ne_nil (splitAtEach_ne_nil separator text)
      rw [splitAtEach_cons_of_ne same pieces]
      rw [pieces] at ih
      by_cases last : rest = []
      · subst last
        rw [List.intercalate_singleton] at ih ⊢
        rw [ih]
      · rw [List.intercalate_cons_of_ne_nil last] at ih ⊢
        rw [List.cons_append, List.cons_append, ih]

/-- A piece is made of characters of the text. -/
theorem subset_of_mem_splitAtEach {text piece : List α}
    (h : piece ∈ splitAtEach separator text) : piece ⊆ text := by
  induction text generalizing piece with
  | nil =>
    cases List.mem_singleton.mp h
    exact List.Subset.refl _
  | cons c text ih =>
    by_cases same : c = separator
    · subst same
      rw [splitAtEach_cons_self] at h
      rcases List.mem_cons.mp h with rfl | h
      · exact List.nil_subset _
      · exact List.subset_cons_of_subset c (ih h)
    · cases pieces : splitAtEach separator text with
      | nil => exact absurd pieces (splitAtEach_ne_nil separator text)
      | cons first rest =>
        rw [splitAtEach_cons_of_ne same pieces] at h
        rw [pieces] at ih
        rcases List.mem_cons.mp h with rfl | h
        · exact List.cons_subset_cons c (ih List.mem_cons_self)
        · exact List.subset_cons_of_subset c (ih (List.mem_cons_of_mem first h))

/-- Any other character behind a text belongs to the last piece. -/
theorem splitAtEach_concat_of_ne {c : α} (ne : c ≠ separator) (text : List α) :
    ∃ before last, splitAtEach separator text = before ++ [last] ∧
      splitAtEach separator (text ++ [c]) = before ++ [last ++ [c]] := by
  induction text with
  | nil => exact ⟨[], [], rfl, splitAtEach_cons_of_ne ne rfl⟩
  | cons d text ih =>
    obtain ⟨before, last, pieces, pieces'⟩ := ih
    by_cases same : d = separator
    · subst same
      refine ⟨[] :: before, last, ?_, ?_⟩
      · rw [splitAtEach_cons_self, pieces, List.cons_append]
      · rw [List.cons_append, splitAtEach_cons_self, pieces', List.cons_append]
    · cases before with
      | nil =>
        exact ⟨[], d :: last, splitAtEach_cons_of_ne same pieces,
          splitAtEach_cons_of_ne same pieces'⟩
      | cons piece before =>
        exact ⟨(d :: piece) :: before, last, splitAtEach_cons_of_ne same pieces,
          splitAtEach_cons_of_ne same pieces'⟩

/-- Lines that each end with a separator are the pieces, with an empty one behind the last. -/
theorem splitAtEach_flatMap {lines : List (List α)} (h : ∀ line ∈ lines, separator ∉ line) :
    splitAtEach separator (lines.flatMap fun line => line ++ [separator]) = lines ++ [[]] := by
  induction lines with
  | nil => rfl
  | cons line lines ih =>
    obtain ⟨hline, hlines⟩ := List.forall_mem_cons.mp h
    rw [List.flatMap_cons, List.append_assoc, List.singleton_append, splitAtEach_append_cons,
      splitAtEach_of_not_mem hline, ih hlines]
    rfl

/-! ## Lines -/

/-- Taking a carriage return away adds nothing. -/
theorem dropCarriageReturn_subset (line : List Char) : dropCarriageReturn line ⊆ line := by
  rw [dropCarriageReturn]
  split
  · exact List.dropLast_subset line
  · exact List.Subset.refl line

/-- No line holds a line feed. -/
theorem not_mem_of_mem_lines {text line : List Char} (h : line ∈ lines text) : '\n' ∉ line := by
  have ended : ∀ line ∈ (splitAtEach '\n' text).dropLast.map dropCarriageReturn, '\n' ∉ line := by
    intro line mem feed
    obtain ⟨piece, hpiece, rfl⟩ := List.mem_map.mp mem
    exact not_mem_of_mem_splitAtEach (List.dropLast_subset _ hpiece)
      (dropCarriageReturn_subset piece feed)
  rw [lines] at h
  split at h
  · exact ended line h
  · exact ended line h
  · next unended _ last =>
    rcases List.mem_append.mp h with h | h
    · exact ended line h
    · cases List.mem_singleton.mp h
      exact not_mem_of_mem_splitAtEach (List.mem_of_getLast? last)

/-- The lines of a text are its pieces, those that a line feed ends without the carriage return
before it, and the last one only if it is not empty. -/
theorem lines_of_pieces {text last : List Char} {before : List (List Char)}
    (pieces : splitAtEach '\n' text = before ++ [last]) :
    lines text = before.map dropCarriageReturn ++ if last = [] then [] else [last] := by
  rw [lines, pieces, List.getLast?_concat, List.dropLast_concat]
  cases last with
  | nil => exact (List.append_nil _).symm
  | cons c rest => rfl

/-! ## Line ends -/

/-- What ends a line: a line feed, or one with a carriage return before it. -/
def lineEnds : List String :=
  ["\n", "\r\n"]

/-- The second text is the first one with a carriage return put before some of its line feeds. -/
inductive ReturnsAdded : List Char → List Char → Prop
  | nil : ReturnsAdded [] []
  | keep (c : Char) {text text' : List Char} :
    ReturnsAdded text text' → ReturnsAdded (c :: text) (c :: text')
  | feed {text text' : List Char} :
    ReturnsAdded text text' → ReturnsAdded ('\n' :: text) ('\r' :: '\n' :: text')

/-- The same text may come before both. -/
theorem ReturnsAdded.append_left (front : List Char) {text text' : List Char}
    (added : ReturnsAdded text text') : ReturnsAdded (front ++ text) (front ++ text') := by
  induction front with
  | nil => exact added
  | cons c front ih => exact .keep c ih

/-! ## Words in a text -/

/-- To occur in a text is to be an infix of it. -/
theorem occursIn_iff {needle text : List Char} :
    occursIn needle text = true ↔ needle <:+: text := by
  induction text with
  | nil => rw [occursIn, List.isEmpty_iff, List.infix_nil]
  | cons c text ih =>
    rw [occursIn, Bool.or_eq_true, List.isPrefixOf_iff_prefix, ih, List.infix_cons_iff]

end BuildRunner.Text
