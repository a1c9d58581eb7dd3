import Mathlib.Data.List.Basic
import BuildRunner.Proofs.Settings.Merge
import BuildRunner.Proofs.Text.Lines
import BuildRunner.Settings.Variable

/-!
# What the variables of an environment give

The last variable of a key counts.
-/

namespace BuildRunner.Settings

/-! ## Values written in one line -/

namespace Inline

/-- Items have what each single one has. -/
theorem forall_of_items? {α : Type} {P : α → Prop} {item? : List Char → Option (α × List Char)}
    {closing : Char} (each : ∀ cs item rest, item? cs = some (item, rest) → P item) {fuel : Nat}
    {cs rest : List Char} {items : List α}
    (read : items? item? closing fuel cs = some (items, rest)) : ∀ item ∈ items, P item := by
  induction fuel generalizing cs items rest with
  | zero => cases read
  | succ fuel ih =>
    rw [items?] at read
    split at read
    · cases read
      exact fun _ mem => absurd mem List.not_mem_nil
    · obtain ⟨⟨first, behind⟩, one, read⟩ := Option.bind_eq_some_iff.mp read
      have own := each _ _ _ one
      cases behind with
      | nil => cases read
      | cons c behind =>
        dsimp only at read
        split at read
        · obtain ⟨⟨others, after⟩, more, read⟩ := Option.bind_eq_some_iff.mp read
          cases read
          exact List.forall_mem_cons.mpr ⟨own, ih more⟩
        · split at read
          · cases read
            exact List.forall_mem_singleton.mpr own
          · cases read

/-- An entry has the value that is read for it. -/
theorem exists_of_named? {value? : List Char → Option (Value × List Char)} {cs rest : List Char}
    {entry : String × Value} (read : named? value? cs = some (entry, rest)) :
    ∃ front behind, value? front = some (entry.2, behind) := by
  obtain ⟨⟨name, after⟩, _, read⟩ := Option.bind_eq_some_iff.mp read
  dsimp only at read
  split at read
  · obtain ⟨⟨value, behind⟩, own, read⟩ := Option.bind_eq_some_iff.mp read
    cases read
    exact ⟨_, _, own⟩
  · cases read

/-- A value that is read has distinct names, however deeply it is nested. -/
theorem distinct_of_value? {source : Source} {depth : Nat} {cs rest : List Char} {value : Value}
    (read : value? source depth cs = some (value, rest)) : value.Distinct := by
  induction depth generalizing cs rest value with
  | zero =>
    rw [value?] at read
    split at read
    · cases read
    · cases read
    · obtain ⟨_, _, read⟩ := Option.bind_eq_some_iff.mp read
      cases read
      trivial
  | succ depth ih =>
    rw [value?] at read
    split at read
    · obtain ⟨⟨entries, _⟩, entered, read⟩ := Option.bind_eq_some_iff.mp read
      cases read
      refine Table.distinct_ofList (forall_of_items? ?_ entered)
      intro cs entry rest own
      obtain ⟨_, _, inner⟩ := exists_of_named? own
      exact ih inner
    · obtain ⟨_, _, read⟩ := Option.bind_eq_some_iff.mp read
      cases read
      trivial
    · obtain ⟨_, _, read⟩ := Option.bind_eq_some_iff.mp read
      cases read
      trivial

theorem distinct_read (source : Source) (text : String) : (read source text).Distinct := by
  rw [read]
  split
  · next found => exact distinct_of_value? found
  · trivial

end Inline

/-! ## The last variable of a key -/

variable {env : Environment} {key way : List String} {name content : String} {table : Table}

/-- A key has a name in it. -/
theorem ne_nil_of_variableKey? (named : variableKey? name = some key) : key ≠ [] := by
  rintro rfl
  unfold variableKey? at named
  dsimp only at named
  split at named
  · split at named
    · cases named
    · have empty := Option.some.inj named
      rw [keyOf, Text.pieces, List.map_eq_nil_iff] at empty
      exact Text.splitAtEach_ne_nil _ _ empty
  · cases named

/-- The value of the last variable of a key. -/
def lastVariable? (env : Environment) (key : List String) : Option Value :=
  (env.pairs.filter fun pair => variableKey? pair.1 = some key).getLast?.map fun pair =>
    Inline.read .environment pair.2

theorem exists_of_variableTable? (own : variableTable? name content = some table) :
    ∃ key, variableKey? name = some key ∧
      table = Table.nest .environment (Inline.read .environment content) key := by
  obtain ⟨key, named, rfl⟩ := Option.map_eq_some_iff.mp own
  exact ⟨key, named, rfl⟩

/-- What a variable of another key gives is not on the way, and one of the way's key has its value
there. -/
theorem textAt?_of_variableTable? (deep : way ≠ [])
    (aside : ∀ key, variableKey? name = some key → Aside key way) :
    (variableTable? name content).bind (fun table => table.textAt? way) =
      if variableKey? name = some way then some (Inline.read .environment content).text?
      else none := by
  rw [variableTable?]
  cases named : variableKey? name with
  | none => rfl
  | some key =>
    rw [Option.map_some, Option.bind_some, Table.textAt?_nest _ _ deep (aside key named)]
    simp only [Option.some.injEq]

theorem distinct_of_mem_variables (env : Environment) :
    ∀ table ∈ env.pairs.filterMap (fun pair => variableTable? pair.1 pair.2), table.Distinct := by
  intro table mem
  obtain ⟨pair, _, own⟩ := List.mem_filterMap.mp mem
  obtain ⟨key, _, rfl⟩ := exists_of_variableTable? own
  exact Table.distinct_nest _ (Inline.distinct_read _ _) key

theorem distinct_fromEnvironment (env : Environment) : (fromEnvironment env).Distinct :=
  Table.distinct_foldl_merge (distinct_of_mem_variables env) trivial

section Aside

variable (aside : ∀ pair ∈ env.pairs, ∀ key, variableKey? pair.1 = some key → Aside key way)

include aside

/-- The table of a single variable leaves the way open. -/
theorem open_of_mem_variables :
    ∀ table ∈ env.pairs.filterMap (fun pair => variableTable? pair.1 pair.2),
      table.Distinct ∧ table.Open way := by
  intro table mem
  obtain ⟨pair, listed, own⟩ := List.mem_filterMap.mp mem
  obtain ⟨key, named, rfl⟩ := exists_of_variableTable? own
  exact ⟨distinct_of_mem_variables env _ mem, Table.open_nest _ _ (aside pair listed key named).1⟩

/-- All variables together leave the way open. -/
theorem fromEnvironment_open :
    (fromEnvironment env).Distinct ∧ (fromEnvironment env).Open way :=
  ⟨distinct_fromEnvironment env,
    Table.open_foldl_merge (open_of_mem_variables aside) (Table.open_empty way)⟩

/-- At the end of the way is the value of the last variable with this key. -/
theorem textAt?_fromEnvironment (deep : way ≠ []) :
    (fromEnvironment env).textAt? way = (lastVariable? env way).map Value.text? := by
  have each : ∀ pair ∈ env.pairs,
      (variableTable? pair.1 pair.2).bind (fun table => table.textAt? way) =
        if variableKey? pair.1 = some way then
          some (Inline.read .environment pair.2).text? else none :=
    fun pair listed => textAt?_of_variableTable? deep (aside pair listed)
  rw [fromEnvironment, Table.textAt?_foldl_merge (open_of_mem_variables aside), Table.textAt?_empty,
    Option.or_none, List.filterMap_filterMap, List.filterMap_congr each, lastVariable?,
    Option.map_map, ← List.getLast?_map, ← List.filterMap_eq_map, List.filterMap_filter]
  simp

end Aside

end BuildRunner.Settings
