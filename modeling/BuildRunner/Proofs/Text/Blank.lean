import BuildRunner.Text.Blank
import Mathlib.Data.List.TakeWhile

/-!
# Trimming

Trimming takes characters away at the ends of a text and adds none. Blanks that are put at an end
are taken away again. A word without blanks at its ends stays whole wherever it stands
(`trim_around`), so what is trimmed once is not changed by trimming it again.
-/

namespace BuildRunner.Text

theorem trimBack_isPrefixOf (cs : List Char) : trimBack cs <+: cs := by
  have suffix : cs.reverse.dropWhile isBlank <:+ cs.reverse := List.dropWhile_suffix isBlank
  rwa [← List.reverse_prefix, List.reverse_reverse] at suffix

/-- What is left of a text stands in it. -/
theorem trim_infix (cs : List Char) : trim cs <:+: cs :=
  (trimBack_isPrefixOf (trimFront cs)).isInfix.trans (List.dropWhile_suffix isBlank).isInfix

/-- What is taken away behind a text are blanks. -/
theorem exists_trimBack_append (cs : List Char) :
    ∃ behind, cs = trimBack cs ++ behind ∧ ∀ c ∈ behind, isBlank c = true := by
  refine ⟨(cs.reverse.takeWhile isBlank).reverse, ?_, fun c mem => ?_⟩
  · rw [trimBack, ← List.reverse_append, List.takeWhile_append_dropWhile, List.reverse_reverse]
  · exact List.mem_takeWhile_imp (List.mem_reverse.mp mem)

/-- Nothing is left of blanks, and of nothing else. -/
theorem trimBack_eq_nil {cs : List Char} : trimBack cs = [] ↔ ∀ c ∈ cs, isBlank c = true := by
  rw [trimBack, List.reverse_eq_nil_iff, List.dropWhile_eq_nil_iff]
  simp only [List.mem_reverse]

theorem trimBack_concat {c : Char} (blank : isBlank c = true) (cs : List Char) :
    trimBack (cs ++ [c]) = trimBack cs := by
  rw [trimBack, List.reverse_concat, List.dropWhile_cons_of_pos blank, trimBack]

/-- A blank behind a text is trimmed. -/
theorem trim_concat {c : Char} (blank : isBlank c = true) (cs : List Char) :
    trim (cs ++ [c]) = trim cs := by
  have front : trimFront (cs ++ [c]) = trimFront cs ++ [c] ∨
      trimFront cs = [] ∧ trimFront (cs ++ [c]) = [] := by
    rw [trimFront, List.dropWhile_append, trimFront]
    cases left : cs.dropWhile isBlank with
    | nil => exact .inr ⟨rfl, List.dropWhile_cons_of_pos blank⟩
    | cons d rest => exact .inl rfl
  rw [trim, trim]
  rcases front with more | ⟨none, none'⟩
  · rw [more, trimBack_concat blank]
  · rw [none, none']

/-! ## Texts without blanks at their ends -/

/-- A text that neither starts nor ends with a blank. -/
structure Trimmed (cs : List Char) : Prop where
  front : ∀ c, cs.head? = some c → isBlank c = false
  back : ∀ c, cs.getLast? = some c → isBlank c = false

variable {word : List Char}

theorem trimBack_eq (cs : List Char) : trimBack cs = (trimFront cs.reverse).reverse :=
  rfl

/-- What stands before a text that is not blank in front is trimmed by itself. -/
theorem trimFront_append (more : word ≠ []) (front : ∀ c, word.head? = some c → isBlank c = false)
    (before : List Char) : trimFront (before ++ word) = trimFront before ++ word := by
  obtain ⟨c, rest, rfl⟩ := List.exists_cons_of_ne_nil more
  have own : isBlank c = false := front c rfl
  rw [trimFront, List.dropWhile_append, trimFront]
  split
  · next none => rw [List.isEmpty_iff.mp none, List.dropWhile_cons_of_neg (by simp [own]),
      List.nil_append]
  · rfl

/-- What stands behind a text that is not blank at its back is trimmed by itself. -/
theorem trimBack_append (more : word ≠ [])
    (back : ∀ c, word.getLast? = some c → isBlank c = false) (behind : List Char) :
    trimBack (word ++ behind) = word ++ trimBack behind := by
  have front (c : Char) (first : word.reverse.head? = some c) : isBlank c = false :=
    back c (List.head?_reverse ▸ first)
  rw [trimBack_eq, List.reverse_append, trimFront_append (by simpa using more) front,
    List.reverse_append, List.reverse_reverse, trimBack_eq]

/-- Nothing is taken away in front of a text that does not start with a blank. -/
theorem trimFront_eq_self {cs : List Char} (front : ∀ c, cs.head? = some c → isBlank c = false) :
    trimFront cs = cs := by
  cases cs with
  | nil => rfl
  | cons c rest => exact List.dropWhile_cons_of_neg (Bool.not_eq_true _ ▸ front c rfl)

/-- Trimming takes away nothing of a word that has no blanks at its ends, wherever it stands. -/
theorem trim_around (trimmed : Trimmed word) (more : word ≠ []) (before behind : List Char) :
    trim (before ++ word ++ behind) = trimFront before ++ word ++ trimBack behind := by
  have front (c : Char) (first : (word ++ behind).head? = some c) : isBlank c = false := by
    rw [List.head?_append, List.head?_eq_some_head more, Option.some_or] at first
    exact trimmed.front c ((List.head?_eq_some_head more).trans first)
  have back (c : Char) (last : (trimFront before ++ word).getLast? = some c) :
      isBlank c = false := by
    rw [List.getLast?_append, List.getLast?_eq_some_getLast more, Option.some_or] at last
    exact trimmed.back c ((List.getLast?_eq_some_getLast more).trans last)
  rw [trim, List.append_assoc, trimFront_append (List.append_ne_nil_of_left_ne_nil more _) front,
    ← List.append_assoc, trimBack_append (List.append_ne_nil_of_right_ne_nil _ more) back]

/-- Trimming leaves no blank at either end. -/
theorem trimmed_trim (cs : List Char) : Trimmed (trim cs) := by
  have starts (text : List Char) (c : Char) (first : (trimFront text).head? = some c) :
      isBlank c = false := by
    have notBlank := List.head?_dropWhile_not isBlank text
    rw [trimFront] at first
    rw [first] at notBlank
    simpa using notBlank
  refine ⟨fun c first => starts cs c ?_, fun c last => starts (trimFront cs).reverse c ?_⟩
  · obtain ⟨blanks, whole⟩ := trimBack_isPrefixOf (trimFront cs)
    rw [← whole, List.head?_append, show (trimBack (trimFront cs)).head? = some c from first,
      Option.some_or]
  · rwa [trim, trimBack_eq, List.getLast?_reverse] at last

/-- A text without blanks at its ends is left as it is. -/
theorem trim_eq_self (trimmed : Trimmed word) : trim word = word := by
  by_cases none : word = []
  · subst none
    rfl
  · have alone : trim ([] ++ word ++ []) = [] ++ word ++ [] := trim_around trimmed none [] []
    rwa [List.nil_append, List.append_nil] at alone

/-- The second text is the first one without the blanks at both ends. -/
structure TrimsTo (cs word : List Char) : Prop where
  around : ∃ before behind, cs = before ++ word ++ behind ∧
    (∀ c ∈ before, isBlank c = true) ∧ ∀ c ∈ behind, isBlank c = true
  trimmed : Trimmed word

theorem trimsTo_trim (cs : List Char) : TrimsTo cs (trim cs) := by
  refine ⟨?_, trimmed_trim cs⟩
  obtain ⟨behind, kept, blank⟩ := exists_trimBack_append (trimFront cs)
  refine ⟨cs.takeWhile isBlank, behind, ?_, fun c => List.mem_takeWhile_imp, blank⟩
  rw [List.append_assoc, trim, ← kept, trimFront, List.takeWhile_append_dropWhile]

/-- Trimming twice is trimming once. -/
theorem trim_trim (cs : List Char) : trim (trim cs) = trim cs :=
  trim_eq_self (trimmed_trim cs)

end BuildRunner.Text
