import BuildRunner.Proofs.Scan.Extraction

/-!
# Selected lines and the blanks around them

A documentation comment is told by what a line starts with and by what it is when it is trimmed.
Both can be read off the text behind the slashes: something in it is no blank, wherever it stands.

Blanks around a line do not matter to what is still to do. For a documentation comment those behind
it do not matter, but one in front makes it none. So the lines of a text have to be selected as they
stand there, and not after they are trimmed (`selection_and_blanks`).
-/

namespace BuildRunner.Marker

open Text

variable {line : List Char}

/-- A documentation comment is slashes and, somewhere behind them, something that is no blank. -/
theorem selects_documentation_iff : documentation.selects line = true ↔
    ∃ rest, line = slashes ++ rest ∧ ∃ c ∈ rest, isBlank c = false := by
  have tells (rest : List Char) :
      trim (slashes ++ rest) ≠ slashes ↔ ∃ c ∈ rest, isBlank c = false := by
    have kept : trim (slashes ++ rest) = slashes ++ trimBack rest :=
      trim_around trimmed_slashes (by decide) [] rest
    rw [kept, Ne, List.append_right_eq_self, trimBack_eq_nil]
    simp
  rw [selects, Bool.and_eq_true, List.isPrefixOf_iff_prefix, bne_iff_ne]
  constructor
  · rintro ⟨⟨rest, rfl⟩, more⟩
    exact ⟨rest, rfl, (tells rest).mp more⟩
  · rintro ⟨rest, rfl, something⟩
    exact ⟨List.prefix_append _ _, (tells rest).mpr something⟩

/-- Blanks around a line are no part of what it mentions. -/
theorem selects_todo_trim (line : List Char) : todo.selects (trim line) = todo.selects line := by
  rw [Bool.eq_iff_iff]
  refine ⟨fun selected => ?_, selects_trim⟩
  rw [selects, occursIn_iff] at selected ⊢
  have inside := trim_infix line
  exact selected.trans inside

/-- Blanks behind a documentation comment do not matter, and there are none before it. -/
theorem selects_documentation_trim : documentation.selects line = true ↔
    documentation.selects (trim line) = true ∧ ∀ c, line.head? = some c → isBlank c = false := by
  constructor
  · intro selected
    refine ⟨selects_trim selected, ?_⟩
    obtain ⟨rest, rfl, _⟩ := selects_documentation_iff.mp selected
    rintro c ⟨⟩
    decide
  · rintro ⟨selected, front⟩
    rw [selects, trim_trim, Bool.and_eq_true, List.isPrefixOf_iff_prefix] at selected
    obtain ⟨starts, more⟩ := selected
    rw [trim, trimFront_eq_self front] at starts
    rw [selects, more, Bool.and_true, List.isPrefixOf_iff_prefix]
    exact starts.trans (trimBack_isPrefixOf line)

/-- **What is selected, and what trimming a line does to that.** Let a line be any text, also one
with line feeds. It is selected as documentation if it is three slashes and a rest in which
something is no blank. It is selected as something to do if it is when the blanks at both ends are
removed. It is selected as documentation if it is then, too, and does not start with a blank. -/
theorem selection_and_blanks (line : String) :
    (documentation.selectsLine line = true ↔
      ∃ rest, line = "///" ++ rest ∧ ∃ c ∈ rest.toList, isBlank c = false) ∧
    TrimsTo line.toList (trimmed line).toList ∧
    (todo.selectsLine line = true ↔ todo.selectsLine (trimmed line) = true) ∧
    (documentation.selectsLine line = true ↔
      documentation.selectsLine (trimmed line) = true ∧
        ∀ c, line.toList.head? = some c → isBlank c = false) := by
  have own : (trimmed line).toList = trim line.toList := String.toList_ofList
  refine ⟨?_, ?_, ?_, ?_⟩
  · rw [selectsLine, selects_documentation_iff]
    constructor
    · rintro ⟨rest, whole, something⟩
      refine ⟨String.ofList rest, String.toList_inj.mp ?_, ?_⟩
      · have front : "///".toList = slashes := rfl
        rw [whole, String.toList_append, front, String.toList_ofList]
      · rwa [String.toList_ofList]
    · rintro ⟨rest, rfl, something⟩
      exact ⟨rest.toList, String.toList_append, something⟩
  · rw [own]
    exact trimsTo_trim line.toList
  · rw [selectsLine, selectsLine, own, selects_todo_trim]
  · rw [selectsLine, selectsLine, own]
    exact selects_documentation_trim

/-- A line feed between the slashes and the text is as good as a space, and one before them is a
blank in front. -/
example : documentation.selectsLine "///\n\u2028x" = true ∧
    documentation.selectsLine "\n///\n\u2028x" = false ∧
    documentation.selectsLine "///\n\u2028" = false := by
  decide +kernel

end BuildRunner.Marker
