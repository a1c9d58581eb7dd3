import BuildRunner.Proofs.Settings.Decode
import BuildRunner.Proofs.Settings.Variable
import BuildRunner.Settings.Load

/-!
# What settings depend on

Settings are decoded from the values at the ends of ways of one or two names, and of a table that
stands there only the source is looked at (`decode_congr`). So two environments give the same
settings if they give the same bare values on the ways into the two sections (`load_congr`). What is
at the end of such a way was put there by the last variable that changes something there
(`bareAt?_fromEnvironment`).
-/

namespace BuildRunner.Settings

variable {table other : Table} {pair : String × String} {name : String} {way key : List String}

/-! ## Variables -/

/-- What a variable changes at the end of a way when it is merged in. -/
def variableChange? (way : List String) (pair : String × String) : Option (Option Value) :=
  (variableTable? pair.1 pair.2).bind fun table => table.change? way

theorem variableChange?_eq (named : variableKey? pair.1 = some key) :
    variableChange? way pair =
      (Table.nest .environment (Inline.read .environment pair.2) key).change? way := by
  rw [variableChange?, variableTable?, named]
  rfl

/-- A variable that changes something at the end of a way has a key on the same way. -/
theorem exists_key_of_variableChange? {x : Option Value}
    (own : variableChange? way pair = some x) :
    ∃ key, variableKey? pair.1 = some key ∧
      (key <+: way ∨ way <+: key ∧ x = some (.table .environment .empty)) := by
  obtain ⟨table, given, change⟩ := Option.bind_eq_some_iff.mp own
  obtain ⟨key, named, rfl⟩ := exists_of_variableTable? given
  refine ⟨key, named, ?_⟩
  by_cases before : key <+: way
  · exact .inl before
  · by_cases behind : way <+: key
    · have deep : way ≠ [] := by
        rintro rfl
        cases change
      have ne : way ≠ key := by
        rintro rfl
        exact before (List.prefix_refl _)
      rw [Table.change?_nest_of_prefix _ _ deep behind ne] at change
      exact .inr ⟨behind, (Option.some.inj change).symm⟩
    · rw [Table.change?_nest_of_aside _ _ before behind] at change
      cases change

/-- At the end of a way is what the last variable that changes something there makes of it. -/
theorem bareAt?_fromEnvironment (env : Environment) (way : List String) :
    (fromEnvironment env).bareAt? way =
      ((env.pairs.filterMap (variableChange? way)).getLast?).getD none := by
  rw [fromEnvironment, Table.bareAt?_foldl_merge (distinct_of_mem_variables env),
    Table.bareAt?_empty, List.filterMap_filterMap]
  rfl

/-! ## What is decoded -/

section Decode

variable {α : Type} {fields : List (Field α)} {field : Field α} {part : Section α}
  {entries entries' all all' : Table} {settings : α}

/-- A field is decoded from the bare value. -/
theorem Field.decode_bare (field : Field α) (key : List String) (value : Value) (settings : α) :
    field.decode key value.bare settings = field.decode key value settings := by
  cases value <;> rfl

/-- Fields are decoded from the bare values of their names. -/
theorem decodeNamed_congr
    (same : ∀ field ∈ fields, entries.bareAt? [field.name] = entries'.bareAt? [field.name]) :
    decodeNamed name entries fields settings = decodeNamed name entries' fields settings := by
  induction fields generalizing settings with
  | nil => rfl
  | cons field fields ih =>
    obtain ⟨own, others⟩ := List.forall_mem_cons.mp same
    rw [Table.bareAt?_singleton, Table.bareAt?_singleton] at own
    rw [decodeNamed, decodeNamed]
    cases found : entries.find? field.name with
    | none =>
      rw [found] at own
      rw [Option.map_eq_none_iff.mp own.symm]
      exact ih others
    | some value =>
      rw [found] at own
      obtain ⟨value', found', bare⟩ := Option.map_eq_some_iff.mp own.symm
      rw [found']
      dsimp only
      rw [← field.decode_bare _ value', bare, field.decode_bare]
      exact bind_congr fun mid => ih others

/-- A section that is no simple value is decoded from what its table holds. -/
theorem Section.decode_of_plain? (plain : all.plain? part.name = none) :
    part.decode all = decodeNamed part.name (all.inside part.name) part.named part.default := by
  rw [Section.decode, Table.inside]
  obtain absent | ⟨source, inner, found⟩ := Table.find?_of_plain?_eq_none plain
  · rw [absent]
    exact decodeNamed_empty.symm
  · rw [found]

/-- A section is decoded from its value, if that is no table, and else from the bare values of its
fields. -/
theorem Section.decode_congr (plain : all.plain? part.name = all'.plain? part.name)
    (same : ∀ field ∈ part.named,
      all.bareAt? [part.name, field.name] = all'.bareAt? [part.name, field.name]) :
    part.decode all = part.decode all' := by
  cases own : all.plain? part.name with
  | none =>
    rw [decode_of_plain? own, decode_of_plain? (plain ▸ own)]
    simp only [Table.bareAt?_cons_cons] at same
    exact decodeNamed_congr same
  | some value =>
    rw [Section.decode, Section.decode, Table.find?_of_plain? own,
      Table.find?_of_plain? (plain ▸ own)]

end Decode

/-- Settings are decoded from the sections, as far as they are no tables, and the bare values of all
settings. -/
theorem decode_congr
    (plain : ∀ part ∈ [docsSection.name, toolsSection.name], table.plain? part = other.plain? part)
    (same : ∀ setting : Setting, table.bareAt? setting.key = other.bareAt? setting.key) :
    decode table = decode other := by
  rw [Setting.forall_key_iff (P := fun key => table.bareAt? key = other.bareAt? key)] at same
  rw [decode, decode, docsSection.decode_congr (plain _ (by simp)) same.1,
    toolsSection.decode_congr (plain _ (by simp)) same.2]

/-- Settings are loaded from what the environment gives at the ends of ways into the sections. -/
theorem load_congr {w : World} {root : Path} {env : Environment}
    (same : ∀ part ∈ [docsSection.name, toolsSection.name], ∀ way,
      (fromEnvironment env).bareAt? (part :: way) =
        (fromEnvironment w.environment).bareAt? (part :: way)) :
    load { w with environment := env } root = load w root := by
  have merged (file : Table) (part : String) (known : part ∈ [docsSection.name, toolsSection.name])
      (way : List String) : (file.merge (fromEnvironment env)).bareAt? (part :: way) =
        (file.merge (fromEnvironment w.environment)).bareAt? (part :: way) := by
    refine Table.bareAt?_merge_congr (distinct_fromEnvironment _) (distinct_fromEnvironment _) rfl
      fun front deep before => ?_
    obtain rfl | ⟨rest, rfl, _⟩ := List.prefix_cons_iff.mp before
    · exact absurd rfl deep
    · exact same part known rest
  refine bind_congr fun file => decode_congr (fun part known => ?_) fun setting => ?_
  · rw [Table.plain?_eq, Table.plain?_eq, merged file part known]
  · obtain ⟨part, known, name, key⟩ := setting.exists_key_eq
    rw [key, merged file part known]

end BuildRunner.Settings
