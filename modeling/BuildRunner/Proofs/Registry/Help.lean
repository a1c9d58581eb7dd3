import BuildRunner.Action.Basic
import BuildRunner.Proofs.Text.Utf8
import Mathlib.Data.List.Forall2
import Mathlib.Data.List.Perm.Basic

/-!
# What the help listing shows

The commands are sorted by the number of their prerequisites, and the sort is stable. Together this
leaves one order only (`IsListing.unique`), and the order is known from the commands with each
number, taken by themselves (`eq_of_ascending`). So it does not matter how commands with different
numbers were registered among each other.

A line has two columns. The width of the first one is counted in bytes and filled up in characters,
which fits, since no text has more characters than bytes.
-/

namespace BuildRunner

variable {α β : Type}

/-! ## The order of the commands -/

/-- A list in ascending order of a number is known from its members with each number. -/
theorem eq_of_ascending {number : β → Nat} {l l' : List β}
    (ascending : l.Pairwise fun a b => number a ≤ number b)
    (ascending' : l'.Pairwise fun a b => number a ≤ number b)
    (same : ∀ n, l.filter (number · = n) = l'.filter (number · = n)) : l = l' := by
  have mem_iff (x : β) : x ∈ l ↔ x ∈ l' := by
    simpa using congrArg (x ∈ ·) (same (number x))
  induction l generalizing l' with
  | nil =>
    refine (List.eq_nil_iff_forall_not_mem.mpr fun x mem => ?_).symm
    exact List.not_mem_nil ((mem_iff x).mpr mem)
  | cons a l ih =>
    cases l' with
    | nil => exact absurd ((mem_iff a).mp List.mem_cons_self) List.not_mem_nil
    | cons b l' =>
      rw [List.pairwise_cons] at ascending ascending'
      -- Both heads have the least number, so each is the first of its number.
      have le : number a ≤ number b := by
        obtain rfl | mem := List.mem_cons.mp ((mem_iff b).mpr List.mem_cons_self)
        · exact Nat.le_refl _
        · exact ascending.1 b mem
      have ge : number b ≤ number a := by
        obtain rfl | mem := List.mem_cons.mp ((mem_iff a).mp List.mem_cons_self)
        · exact Nat.le_refl _
        · exact ascending'.1 a mem
      have heads : a = b := by
        have own := same (number a)
        rw [List.filter_cons_of_pos (by simp), List.filter_cons_of_pos (by simp; omega)] at own
        exact (List.cons.inj own).1
      subst heads
      have tails (n : Nat) : l.filter (number · = n) = l'.filter (number · = n) := by
        have own := same n
        by_cases first : number a = n
        · rw [List.filter_cons_of_pos (by simpa), List.filter_cons_of_pos (by simpa)] at own
          exact (List.cons.inj own).2
        · rwa [List.filter_cons_of_neg (by simpa), List.filter_cons_of_neg (by simpa)] at own
      rw [ih ascending.2 ascending'.2 tails fun x => by
        simpa using congrArg (x ∈ ·) (tails (number x))]

namespace Registry

/-- A list has the given commands, each as often as it is given, those with fewer prerequisites
first and those with equally many in the order in which they are given. -/
structure IsListing (commands listing : List (Command α)) : Prop where
  perm : listing.Perm commands
  ascending : listing.Pairwise fun a b => a.prerequisites.length ≤ b.prerequisites.length
  stable : ∀ count, listing.filter (·.prerequisites.length = count) =
    commands.filter (·.prerequisites.length = count)

variable {registry other : Registry α} {commands listing listing' : List (Command α)}

theorem IsListing.unique (first : IsListing commands listing)
    (second : IsListing commands listing') : listing = listing' :=
  eq_of_ascending first.ascending second.ascending fun count =>
    (first.stable count).trans (second.stable count).symm

/-- The commands are listed in this order. -/
theorem isListing_listed (registry : Registry α) : IsListing registry.commands registry.listed := by
  have trans (a b c : Command α) :
      decide (a.prerequisites.length ≤ b.prerequisites.length) = true →
        decide (b.prerequisites.length ≤ c.prerequisites.length) = true →
        decide (a.prerequisites.length ≤ c.prerequisites.length) = true := by
    simpa using Nat.le_trans
  have total (a b : Command α) : (decide (a.prerequisites.length ≤ b.prerequisites.length) ||
      decide (b.prerequisites.length ≤ a.prerequisites.length)) = true := by
    simpa using Nat.le_total _ _
  have perm : registry.listed.Perm registry.commands := List.mergeSort_perm _ _
  refine ⟨perm, ?_, fun count => ?_⟩
  · simpa [listed] using List.pairwise_mergeSort trans total registry.commands
  · -- The commands with one number are in order already, so sorting keeps them as they are.
    have level : (registry.commands.filter (·.prerequisites.length = count)).Pairwise
        fun a b => decide (a.prerequisites.length ≤ b.prerequisites.length) = true := by
      refine List.pairwise_of_forall_mem_list fun a mem b mem' => ?_
      have := (List.mem_filter.mp mem).2
      have := (List.mem_filter.mp mem').2
      simp_all
    have kept : (registry.commands.filter (·.prerequisites.length = count)).Sublist
        registry.listed :=
      List.sublist_mergeSort trans total level List.filter_sublist
    have within := kept.filter (·.prerequisites.length = count)
    rw [List.filter_filter] at within
    simp only [Bool.and_self] at within
    exact (within.eq_of_length (perm.filter _).length_eq.symm).symm

/-- The first column is wider by two than the bytes of the longest name. -/
theorem nameWidth_eq (registry : Registry α) : registry.nameWidth =
    (registry.commands.map fun command => command.name.utf8ByteSize).max?.getD 0 + 2 := by
  rw [nameWidth, List.foldl_max, Nat.zero_max]

/-- Every name leaves room for two more bytes. -/
theorem name_add_two_le_nameWidth {command : Command α} (mem : command ∈ registry.commands) :
    command.name.utf8ByteSize + 2 ≤ registry.nameWidth := by
  have size : command.name.utf8ByteSize ∈
      registry.commands.map fun command => command.name.utf8ByteSize :=
    List.mem_map_of_mem mem
  have := List.le_max?_getD_of_mem (k := 0) size
  rw [nameWidth_eq]
  omega

/-- Some name leaves room for no more than two bytes. -/
theorem exists_name_add_two_eq_nameWidth (commands : registry.commands ≠ []) :
    ∃ command ∈ registry.commands, command.name.utf8ByteSize + 2 = registry.nameWidth := by
  rw [nameWidth_eq]
  cases longest : (registry.commands.map fun command => command.name.utf8ByteSize).max? with
  | none => simp [commands] at longest
  | some size =>
    obtain ⟨command, mem, rfl⟩ := List.mem_map.mp (List.max?_mem longest)
    exact ⟨command, mem, rfl⟩

end Registry

/-! ## Lines in two columns -/

/-- What a line of the listing shows: a cell of the first column, and the text behind it. -/
structure Row where
  cell : String
  text : String
  deriving DecidableEq, Repr

namespace Row

variable {row : Row} {width : Nat} {line : String}

/-- A line shows a row when it is the cell behind a tab, filled up with spaces to the width in
characters, and then the text. -/
def ShownBy (row : Row) (width : Nat) (line : String) : Prop :=
  ∃ gap, row.cell.length + gap = width ∧
    line = "\t" ++ row.cell ++ String.ofList (List.replicate gap ' ') ++ row.text ++ "\n"

/-- The line that is written for a row. -/
def written (width : Nat) (row : Row) : String :=
  "\t" ++ Registry.padded width row.cell ++ row.text ++ "\n"

theorem shownBy_written (fits : row.cell.length ≤ width) :
    row.ShownBy width (row.written width) :=
  ⟨width - row.cell.length, by omega, by simp [written, Registry.padded, String.append_assoc]⟩

/-- A line keeps to the columns when the cell stands whole in front, with two spaces or more up to
the width, and the text begins behind as many characters as the width tells. -/
structure InColumns (row : Row) (width : Nat) (line : String) : Prop where
  gap : row.cell.length + 2 ≤ width
  front : line.toList.take (1 + width) =
    '\t' :: (row.cell.toList ++ List.replicate (width - row.cell.length) ' ')
  behind : line.toList.drop (1 + width) = row.text.toList ++ ['\n']

theorem ShownBy.inColumns (shown : row.ShownBy width line) (gap : row.cell.length + 2 ≤ width) :
    row.InColumns width line := by
  obtain ⟨blanks, filled, rfl⟩ := shown
  obtain rfl : blanks = width - row.cell.length := by omega
  have long : ('\t' :: (row.cell.toList ++ List.replicate (width - row.cell.length) ' ')).length =
      1 + width := by
    simp only [List.length_cons, List.length_append, String.length_toList, List.length_replicate]
    omega
  have text : ("\t" ++ row.cell ++ String.ofList (List.replicate (width - row.cell.length) ' ') ++
      row.text ++ "\n").toList =
      ('\t' :: (row.cell.toList ++ List.replicate (width - row.cell.length) ' ')) ++
        (row.text.toList ++ ['\n']) := by
    simp
  exact ⟨gap, text ▸ List.take_left' long, text ▸ List.drop_left' long⟩

end Row

variable [Named α]

/-- The rows of a command: its name with its description and, if it has prerequisites, what it
depends on. -/
def Command.helpRows (command : Command α) : List Row :=
  ⟨command.name, command.description⟩ ::
    match command.prerequisiteNames with
    | [] => []
    | names => [⟨"", "depends on: " ++ String.intercalate ", " names⟩]

namespace Registry

theorem helpEntry_eq (width : Nat) (command : Command α) :
    helpEntry width command = String.join (command.helpRows.map (Row.written width)) := by
  rw [helpEntry, Command.helpRows, Command.prerequisiteNames]
  cases command.prerequisites with
  | nil => simp [Row.written, String.join_cons]
  | cons first others =>
    simp only [List.isEmpty_cons, Bool.false_eq_true, if_false, List.map_cons, List.map_nil,
      String.join_cons, String.join_nil, Row.written, String.append_assoc, String.append_empty]

/-- The help is its heading and a line for each row of the listed commands. -/
theorem help_eq_rows (registry : Registry α) :
    registry.help = helpHeading ++ String.join
      ((registry.listed.flatMap Command.helpRows).map (Row.written registry.nameWidth)) := by
  rw [help, ← String.toList_inj]
  simp only [helpEntry_eq, String.toList_append, String.toList_join, List.flatMap_map,
    List.flatMap_assoc]

variable {registry : Registry α} {command : Command α} {row : Row}

/-- A row leaves two characters to spare: its cell is the name or nothing. -/
theorem cell_add_two_le_nameWidth (mem : command ∈ registry.commands)
    (shown : row ∈ command.helpRows) : row.cell.length + 2 ≤ registry.nameWidth := by
  have name := name_add_two_le_nameWidth mem
  have bytes := Text.length_le_utf8ByteSize command.name
  rw [Command.helpRows, List.mem_cons] at shown
  obtain rfl | second := shown
  · dsimp only
    omega
  · split at second
    · cases second
    · obtain rfl := List.mem_singleton.mp second
      rw [String.length_empty]
      omega

/-- **All texts of the help begin in one column.** The width of the first column is by two larger
than the bytes of the longest name. In every line of the help, those of prerequisites included, the
cell stands whole behind a tab, with two spaces or more behind it up to this width, counted in
characters, and the text begins there. -/
theorem help_keeps_to_columns (registry : Registry α) :
    (∀ command ∈ registry.commands, command.name.utf8ByteSize + 2 ≤ registry.nameWidth) ∧
    (registry.commands ≠ [] →
      ∃ command ∈ registry.commands, command.name.utf8ByteSize + 2 = registry.nameWidth) ∧
    ∃ lines,
      List.Forall₂ (fun row line => row.InColumns registry.nameWidth line)
        (registry.listed.flatMap Command.helpRows) lines ∧
      registry.help = helpHeading ++ String.join lines := by
  refine ⟨fun _ => name_add_two_le_nameWidth, exists_name_add_two_eq_nameWidth, _, ?_,
    help_eq_rows registry⟩
  rw [List.forall₂_map_right_iff, List.forall₂_same]
  intro row shown
  obtain ⟨command, listed, shown⟩ := List.mem_flatMap.mp shown
  have mem := (isListing_listed registry).perm.mem_iff.mp listed
  have room := cell_add_two_le_nameWidth mem shown
  exact (Row.shownBy_written (by omega)).inColumns room

/-- A name of three characters and nine bytes makes the column eleven wide, and the empty name
stands in it, too. -/
theorem help_keeps_to_columns_wide :
    let nameless : Command Action := ⟨"", "nameless", none, [.docs, .site]⟩
    let manual : Command Action := ⟨"説明書", "manual", some .manPages, [.docs]⟩
    let registry : Registry Action := ⟨[nameless, manual]⟩
    let rows : List Row := [⟨"説明書", "manual"⟩, ⟨"", "depends on: docs"⟩, ⟨"", "nameless"⟩,
      ⟨"", "depends on: docs, site"⟩]
    nameless.name.utf8ByteSize + 2 ≤ 11 ∧
      (∃ command ∈ registry.commands, command.name.utf8ByteSize + 2 = 11) ∧
      ∃ lines, List.Forall₂ (fun row line => Row.InColumns row 11 line) rows lines ∧
        registry.help = helpHeading ++ String.join lines := by
  intro nameless manual registry rows
  have width : registry.nameWidth = 11 := by decide +kernel
  have stable (count : Nat) : [manual, nameless].filter (·.prerequisites.length = count) =
      registry.commands.filter (·.prerequisites.length = count) := by
    rcases count with - | - | - | count <;> simp [nameless, manual, registry]
  have listed : registry.listed = [manual, nameless] :=
    (isListing_listed registry).unique ⟨by decide, by decide, stable⟩
  have shown : registry.listed.flatMap Command.helpRows = rows := by
    rw [listed]
    decide +kernel
  obtain ⟨each, longest, lines⟩ := help_keeps_to_columns registry
  rw [width] at each longest lines
  rw [shown] at lines
  exact ⟨each nameless List.mem_cons_self, longest (List.cons_ne_nil _ _), lines⟩

end Registry

end BuildRunner
