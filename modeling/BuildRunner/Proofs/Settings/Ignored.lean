import BuildRunner.Proofs.Settings.Change
import BuildRunner.Proofs.Settings.Precedence

/-!
# What does not count

Most variables of an environment are not meant for the settings, and a settings file may hold more
than is asked for. What lies outside the two sections counts for nothing, whatever it is: it is
merged along, but no way into a section leads to it. What lies inside a section but is no setting of
it counts for nothing as long as the sections are tables. It does make a table of a section where
there was none, and so it must not meet a simple value there, whose refusal it would hide.
-/

namespace BuildRunner

/-! ## Lists with other members -/

section Lists

variable {α β : Type} {P : α → Prop} {l l' : List α} {a : α}

/-- Two lists differ in members of one kind only, which one of them has and the other one lacks, in
whatever places. -/
inductive DiffersBy (P : α → Prop) : List α → List α → Prop where
  | nil : DiffersBy P [] []
  | kept {a : α} {l l' : List α} : DiffersBy P l l' → DiffersBy P (a :: l) (a :: l')
  | removed {a : α} {l l' : List α} : P a → DiffersBy P l l' → DiffersBy P (a :: l) l'
  | added {a : α} {l l' : List α} : P a → DiffersBy P l l' → DiffersBy P l (a :: l')

/-- What such members have no part in is the same. -/
theorem DiffersBy.filterMap_eq (differs : DiffersBy P l l') {change : α → Option β}
    (blind : ∀ a, P a → change a = none) : l.filterMap change = l'.filterMap change := by
  induction differs with
  | nil => rfl
  | kept _ ih => rw [List.filterMap_cons, List.filterMap_cons, ih]
  | removed own _ ih => rw [List.filterMap_cons_none (blind _ own), ih]
  | added own _ ih => rw [List.filterMap_cons_none (blind _ own), ih]

/-- A member of one list is one of the other, or of the kind in which they differ. -/
theorem DiffersBy.mem_or (differs : DiffersBy P l l') (mem : a ∈ l') : a ∈ l ∨ P a := by
  induction differs with
  | nil => exact .inl mem
  | kept _ ih =>
    obtain rfl | mem := List.mem_cons.mp mem
    · exact .inl List.mem_cons_self
    · exact (ih mem).imp_left (List.mem_cons_of_mem _)
  | removed _ _ ih => exact (ih mem).imp_left (List.mem_cons_of_mem _)
  | added own _ ih =>
    obtain rfl | mem := List.mem_cons.mp mem
    · exact .inr own
    · exact ih mem

end Lists

namespace Settings

variable {env : Environment} {table : Table} {pair : String × String} {name part : String}
  {key way : List String}

/-! ## Names of variables that do not count -/

/-- The names that stand behind the prefix in the name of a variable. -/
def namedKey (name : String) : List String :=
  keyOf ((Text.trim name.toList).drop variablePrefix.length)

/-- The name of a variable leads to no section. -/
inductive Ignored (name : String) : Prop where
  /-- Without the blanks around it, the name does not start with the prefix, whatever the case of
  the letters. -/
  | unprefixed (other : ¬ (lowered variablePrefix).toList <+: (lowered (Text.trimmed name)).toList)
  | emptyName (gap : "" ∈ namedKey name)
  | elsewhere
    (other : ∀ part ∈ [docsSection.name, toolsSection.name], (namedKey name).head? ≠ some part)

/-- The name of a variable leads into a section, but to nothing that is a setting there. -/
def Unknown (name : String) : Prop :=
  ∃ part ∈ [docsSection.name, toolsSection.name], ∃ second rest,
    namedKey name = part :: second :: rest ∧ ∀ setting : Setting, setting.key ≠ [part, second]

/-- A variable gives a setting under the names behind the prefix, if its name has the prefix and
none of these names is empty. -/
theorem variableKey?_eq_some (named : variableKey? name = some key) :
    (lowered variablePrefix).toList <+: (lowered (Text.trimmed name)).toList ∧
      key = namedKey name ∧ "" ∉ key := by
  rw [variableKey?] at named
  dsimp only at named
  split at named
  · next front =>
    split at named
    · cases named
    · next full =>
      have same : namedKey name = key := Option.some.inj named
      refine ⟨⟨((Text.trim name.toList).drop variablePrefix.length).map Char.toLower, ?_⟩,
        same.symm, ?_⟩
      · rw [← front]
        simp [lowered, Text.trimmed]
      · rw [← same]
        simpa [namedKey] using full
  · cases named

/-- A variable that leads to no section is none of a section. -/
theorem Ignored.head?_ne (ignored : Ignored name) (named : variableKey? name = some key) :
    ∀ part ∈ [docsSection.name, toolsSection.name], key.head? ≠ some part := by
  obtain ⟨front, same, full⟩ := variableKey?_eq_some named
  rw [same] at full ⊢
  cases ignored with
  | unprefixed other => exact absurd front other
  | emptyName gap => exact absurd gap full
  | elsewhere other => exact other

/-! ## What such variables change -/

/-- A variable whose key lies on another way changes nothing at the end of this one. -/
theorem variableChange?_eq_none
    (aside : ∀ key, variableKey? pair.1 = some key → ¬ key <+: way ∧ ¬ way <+: key) :
    variableChange? way pair = none := by
  cases named : variableKey? pair.1 with
  | none => rw [variableChange?, variableTable?, named]; rfl
  | some key =>
    rw [variableChange?_eq named]
    exact Table.change?_nest_of_aside _ _ (aside key named).1 (aside key named).2

/-- A variable that leads to no section changes nothing in a section. -/
theorem Ignored.variableChange?_eq_none (ignored : Ignored pair.1)
    (known : part ∈ [docsSection.name, toolsSection.name]) (way : List String) :
    variableChange? (part :: way) pair = none := by
  refine Settings.variableChange?_eq_none fun key named => ?_
  have other := ignored.head?_ne named part known
  cases key with
  | nil => exact absurd rfl (ne_nil_of_variableKey? named)
  | cons first key =>
    have ne : first ≠ part := fun same => other (congrArg some same)
    simp [ne, ne.symm]

/-- A variable that leads to nothing in a section that is a setting changes no setting. -/
theorem Unknown.variableChange?_eq_none (unknown : Unknown pair.1) (setting : Setting) :
    variableChange? setting.key pair = none := by
  refine Settings.variableChange?_eq_none fun key named => ?_
  obtain ⟨part, _, second, rest, behind, other⟩ := unknown
  obtain ⟨part', _, name, own⟩ := setting.exists_key_eq
  have ne := other setting
  rw [own] at ne ⊢
  rw [(variableKey?_eq_some named).2.1, behind]
  simp only [List.cons_prefix_cons]
  constructor
  · rintro ⟨rfl, rfl, -⟩
    exact ne rfl
  · rintro ⟨rfl, rfl, -⟩
    exact ne rfl

/-! ## Sections that are tables -/

/-- Where no variable is for a whole section, the environment has no simple value for it. -/
theorem plain?_fromEnvironment
    (apart : ∀ pair ∈ env.pairs, variableKey? pair.1 ≠ some [part]) :
    (fromEnvironment env).plain? part = none := by
  rw [Table.plain?_eq, bareAt?_fromEnvironment]
  cases last : (env.pairs.filterMap (variableChange? [part])).getLast? with
  | none => rfl
  | some change =>
    obtain ⟨pair, listed, own⟩ := List.mem_filterMap.mp (List.mem_of_getLast? last)
    obtain ⟨key, named, before | ⟨_, rfl⟩⟩ := exists_key_of_variableChange? own
    · obtain rfl | ⟨rest, rfl, behind⟩ := List.prefix_cons_iff.mp before
      · exact absurd rfl (ne_nil_of_variableKey? named)
      · exact absurd (List.prefix_nil.mp behind ▸ named) (apart pair listed)
    · rfl

/-- A section that a table has is a table. -/
theorem SectionsAreTables.plain? (sections : SectionsAreTables table)
    (known : part ∈ [docsSection.name, toolsSection.name]) : table.plain? part = none := by
  rw [Table.plain?]
  cases found : table.find? part with
  | none => rfl
  | some value =>
    obtain ⟨source, inner, rfl⟩ := sections part known value found
    rfl

/-- A section is a table where something stands in it. -/
theorem sectionsAreTables_of_at?
    (deep : ∀ part ∈ [docsSection.name, toolsSection.name],
      ∃ name, (table.at? [part, name]).isSome) : SectionsAreTables table := by
  intro part known value found
  obtain ⟨name, inside⟩ := deep part known
  obtain ⟨last, leads⟩ := Option.isSome_iff_exists.mp inside
  obtain ⟨source, inner, same⟩ := Table.exists_table_of_at? leads
  exact ⟨source, inner, Option.some.inj (found.symm.trans same)⟩

/-- A variable is for no whole section. -/
def IsApart (pair : String × String) : Prop :=
  ∀ part ∈ [docsSection.name, toolsSection.name], variableKey? pair.1 ≠ some [part]

theorem Ignored.isApart (ignored : Ignored pair.1) : IsApart pair :=
  fun part known named => ignored.head?_ne named part known rfl

theorem Unknown.isApart (unknown : Unknown pair.1) : IsApart pair := by
  intro part _ named
  obtain ⟨_, _, second, rest, behind, _⟩ := unknown
  have same := (variableKey?_eq_some named).2.1
  rw [behind] at same
  cases same

/-- **What is no setting does not count.** Variables without the prefix, with an empty name in their
key or with a key outside the two sections can be added to the environment or removed from it, in
any places and with any values, and the same settings are loaded, or the same refusal is reported.
Blanks around the name of a variable belong neither to its prefix nor to its key. The same holds for
variables and entries of the file that stand in a section and are no setting of it, if the sections
are tables in the file, as far as it has them, and no variable is for a whole section. -/
theorem load_ignores_others (w : World) (root : Path) :
    (∀ env : Environment,
      DiffersBy (fun pair => Ignored pair.1) w.environment.pairs env.pairs →
      load { w with environment := env } root = load w root) ∧
    ∀ (w' : World) (table table' : Table),
      fromFile w root = .ok table → fromFile w' root = .ok table' →
      SectionsAreTables table → SectionsAreTables table' →
      (∀ setting : Setting, table.at? setting.key = table'.at? setting.key) →
      (∀ pair ∈ w.environment.pairs, IsApart pair) →
      DiffersBy (fun pair => Ignored pair.1 ∨ Unknown pair.1) w.environment.pairs
        w'.environment.pairs →
      load w' root = load w root := by
  constructor
  · intro env differs
    refine load_congr fun part known way => ?_
    rw [bareAt?_fromEnvironment, bareAt?_fromEnvironment,
      differs.filterMap_eq fun pair own => own.variableChange?_eq_none known way]
  · intro w' table table' given given' sections sections' same apart differs
    have apart' : ∀ pair ∈ w'.environment.pairs, IsApart pair := by
      intro pair listed
      obtain listed | own | own := differs.mem_or listed
      · exact apart pair listed
      · exact own.isApart
      · exact own.isApart
    have plain (part : String) (known : part ∈ [docsSection.name, toolsSection.name]) :
        (fromEnvironment w.environment).plain? part = none ∧
          (fromEnvironment w'.environment).plain? part = none :=
      ⟨plain?_fromEnvironment fun pair listed => apart pair listed part known,
        plain?_fromEnvironment fun pair listed => apart' pair listed part known⟩
    have distinct := distinct_fromEnvironment w.environment
    have distinct' := distinct_fromEnvironment w'.environment
    rw [load, load, given, given']
    refine decode_congr (fun part known => ?_) fun setting => ?_
    · obtain ⟨own, own'⟩ := plain part known
      rw [Table.plain?_merge distinct' (sections'.plain? known) own',
        Table.plain?_merge distinct (sections.plain? known) own]
    · obtain ⟨part, known, name, key⟩ := setting.exists_key_eq
      have file : table'.bareAt? setting.key = table.bareAt? setting.key := by
        rw [Table.bareAt?, Table.bareAt?, same]
      have environment : (fromEnvironment w'.environment).bareAt? setting.key =
          (fromEnvironment w.environment).bareAt? setting.key := by
        rw [bareAt?_fromEnvironment, bareAt?_fromEnvironment, differs.filterMap_eq]
        rintro pair (own | own)
        · rw [key, own.variableChange?_eq_none known]
        · exact own.variableChange?_eq_none setting
      rw [key] at file environment ⊢
      rw [Table.bareAt?_merge distinct', Table.bareAt?_merge distinct,
        Table.change?_of_open (Table.open_of_plain? (plain part known).1 name),
        Table.change?_of_open (Table.open_of_plain? (plain part known).2 name), file, environment]

/-- A settings file with an entry in each section, neither of which is a setting. -/
def strangeFile : String := "docs.colour = 3\ntools.cc = 'gcc'"

/-- What this file gives. -/
def strangeTable : Table :=
  ((Toml.read? strangeFile).map fun entries => entries.table (.file ⟨"x.toml"⟩)).getD .empty

/-- Such a file may appear, and variables of every kind that does not count may come and go. -/
theorem load_ignores_others_strange :
    let man := ("VASM_X_DOCS__MAN_OUT", "m")
    let home := ("HOME", "/home")
    let gap := ("VASM_X_DOCS____MAN_OUT", "7")
    let log := ("VASM_X_LOG__LEVEL", "[1, 2]")
    let hue := ("VASM_X_DOCS__COLOUR__HUE", "7")
    let w : World := ⟨.empty, [], ⟨[man, home]⟩⟩
    let w' : World := ⟨.ofList [("x.toml", .file strangeFile.toUTF8 false)], [], ⟨[hue, man, gap]⟩⟩
    load { w with environment := ⟨[gap, man, log]⟩ } ⟨"/"⟩ = load w ⟨"/"⟩ ∧
      load w' ⟨"/"⟩ = load w ⟨"/"⟩ := by
  intro man home gap log hue w w'
  have unprefixed : Ignored home.1 := .unprefixed (by decide +kernel)
  have emptyName : Ignored gap.1 := .emptyName (by decide +kernel)
  have elsewhere : Ignored log.1 := .elsewhere (by decide +kernel)
  have unknown : Unknown hue.1 :=
    ⟨"docs", by decide, "colour", ["hue"], by decide +kernel, by decide⟩
  have given : FileGives w' ⟨"/"⟩ strangeTable := by
    have node : w'.node ⟨"/x.toml"⟩ true = .ok (.file strangeFile.toUTF8 false) := by
      decide +kernel
    have readable : (Toml.read? strangeFile).isSome := by decide +kernel
    obtain ⟨entries, read⟩ := Option.isSome_iff_exists.mp readable
    have reported : reportedPath w' ⟨"/x.toml"⟩ = ⟨"x.toml"⟩ := by decide +kernel
    have wanted : (Path.mk "/").join ⟨fileName⟩ = ⟨"/x.toml"⟩ := by decide +kernel
    rw [FileGives, wanted, if_pos (by decide +kernel), reported]
    exact ⟨strangeFile, entries, World.readText_of_node node, read,
      by rw [strangeTable, read]; rfl⟩
  have sections : SectionsAreTables strangeTable := by
    refine sectionsAreTables_of_at? fun name listed => ?_
    obtain rfl | rfl : name = docsSection.name ∨ name = toolsSection.name := by simpa using listed
    · exact ⟨"colour", by decide +kernel⟩
    · exact ⟨"cc", by decide +kernel⟩
  have unset : ∀ setting : Setting, (strangeTable.at? setting.key).isNone := by decide +kernel
  have apart : ∀ pair ∈ w.environment.pairs, IsApart pair := by
    unfold IsApart
    decide +kernel
  obtain ⟨outside, inside⟩ := load_ignores_others w ⟨"/"⟩
  refine ⟨outside ⟨[gap, man, log]⟩ ?_, inside w' .empty strangeTable ?_ ?_ ?_ ?_ ?_ ?_ ?_⟩
  · exact .added emptyName (.kept (.removed unprefixed (.added elsewhere .nil)))
  · exact fromFile_eq (by decide) (by rw [FileGives, if_neg (by decide +kernel)])
  · exact fromFile_eq (by decide) given
  · exact fun _ _ _ found => nomatch found
  · exact sections
  · intro setting
    rw [Table.at?_empty, Option.isNone_iff_eq_none.mp (unset setting)]
  · exact apart
  · exact .added (.inr unknown) (.kept (.removed (.inl unprefixed) (.added (.inl emptyName) .nil)))

/-- A blank before the prefix does not keep a variable from counting: its name does not start with
the prefix, but without the blank it does. -/
theorem variable_behind_blank_counts :
    let name := " VASM_X_DOCS__SITE_DIR"
    let w : World := ⟨.empty, [], ⟨[]⟩⟩
    ¬ (lowered variablePrefix).toList <+: (lowered name).toList ∧
      load w ⟨"/"⟩ = .ok .default ∧
      load { w with environment := ⟨[(name, "web")]⟩ } ⟨"/"⟩ ≠ load w ⟨"/"⟩ := by
  decide +kernel

end Settings

end BuildRunner
