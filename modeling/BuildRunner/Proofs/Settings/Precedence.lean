import BuildRunner.Proofs.Path.Components
import BuildRunner.Proofs.Path.Join
import BuildRunner.Proofs.Settings.Decode
import BuildRunner.Proofs.Settings.Variable
import BuildRunner.Proofs.Tree.Resolve
import BuildRunner.Settings.Load

/-!
# Which value of a setting counts

A setting may have values in the settings file and in several variables of the environment. The last
variable with the setting's key counts, then the file, then the default, for each setting on its own
(`load_takes_winning_values`): a section of which the variables give a part keeps the rest that the
file gives. Settings are refused only for a value that counts and is no text.

This is so as long as the sections are tables. A variable for a whole section would take the place
of the table that the file gives, or be merged into it, by what it holds.
-/

namespace BuildRunner.Settings

variable {w : World} {env : Environment} {root : Path} {table : Table} {key : List String}

/-- What the settings file in the root of a project gives: nothing where there is no such file, and
else the entries of the document that it holds. -/
def FileGives (w : World) (root : Path) (table : Table) : Prop :=
  let file := root.join ⟨fileName⟩
  if w.isFile file then
    ∃ text entries, w.readText file = .ok text ∧ Toml.read? text = some entries ∧
      table = entries.table (.file (reportedPath w file))
  else table = .empty

/-- The sections that a table has are tables. -/
def SectionsAreTables (table : Table) : Prop :=
  ∀ name ∈ [docsSection.name, toolsSection.name], ∀ value, table.find? name = some value →
    ∃ source inner, value = .table source inner

/-- No variable is for a whole section or for anything below a setting. -/
def VariablesAreApart (env : Environment) : Prop :=
  ∀ pair ∈ env.pairs, ∀ key, variableKey? pair.1 = some key →
    key ≠ [docsSection.name] ∧ key ≠ [toolsSection.name] ∧
      ∀ setting : Setting, setting.key <+: key → key = setting.key

/-- The value that counts for a setting, unless it has its default: that of the last variable with
its key, or else that of the file. -/
def winning? (env : Environment) (table : Table) (setting : Setting) : Option Value :=
  (lastVariable? env setting.key).or (table.at? setting.key)

/-- Such variables neither end on the way to a setting nor go on from it. -/
theorem VariablesAreApart.aside (apart : VariablesAreApart env) (setting : Setting) :
    ∀ pair ∈ env.pairs, ∀ key, variableKey? pair.1 = some key → Aside key setting.key := by
  intro pair listed key named
  obtain ⟨noDocs, noTools, below⟩ := apart pair listed key named
  refine ⟨fun before => ?_, below setting⟩
  obtain ⟨part, known, name, same⟩ := setting.exists_key_eq
  rw [same] at before ⊢
  obtain rfl | ⟨rest, rfl, behind⟩ := List.prefix_cons_iff.mp before
  · exact absurd rfl (ne_nil_of_variableKey? named)
  obtain rfl | ⟨rest, rfl, last⟩ := List.prefix_cons_iff.mp behind
  · obtain rfl | rfl : part = docsSection.name ∨ part = toolsSection.name := by simpa using known
    · exact absurd rfl noDocs
    · exact absurd rfl noTools
  · rw [List.prefix_nil.mp last]

theorem SectionsAreTables.leads (sections : SectionsAreTables table) (setting : Setting) :
    table.Open setting.key := by
  obtain ⟨part, known, name, same⟩ := setting.exists_key_eq
  rw [same, Table.Open]
  cases found : table.find? part with
  | none => trivial
  | some value =>
    obtain ⟨source, inner, rfl⟩ := sections part known value found
    trivial

/-- The file of a root that is an absolute path is looked for there and nowhere else. -/
theorem fromFile_eq (absolute : root.isAbsolute = true) (given : FileGives w root table) :
    fromFile w root = .ok table := by
  have wanted : (root.join ⟨fileName⟩).isAbsolute = true :=
    (Path.segments_join_relative (by decide) (Path.raw_ne_empty_of_isAbsolute absolute)).1.trans
      absolute
  rw [FileGives] at given
  simp only [fromFile, file?, wanted, if_true]
  split at given
  · next present =>
    obtain ⟨text, entries, readable, read, rfl⟩ := given
    simp only [present, if_true, readable, read]
  · next absent =>
    simp only [absent, given]
    rfl

/-- What is at the end of the way to a setting when the variables are merged into the file. -/
theorem textAt?_merge_eq_winning (apart : VariablesAreApart env) (setting : Setting) :
    (table.merge (fromEnvironment env)).textAt? setting.key =
      (winning? env table setting).map Value.text? := by
  obtain ⟨distinct, leads⟩ := fromEnvironment_open (apart.aside setting)
  have deep : setting.key ≠ [] := by
    obtain ⟨part, _, name, same⟩ := setting.exists_key_eq
    simp [same]
  rw [Table.textAt?_merge distinct leads, textAt?_fromEnvironment (apart.aside setting) deep,
    winning?, Table.textAt?]
  cases lastVariable? env setting.key <;> rfl

/-- Settings are loaded when every value that counts is a text. Each setting is then the value that
counts for it, or its default where it has none. -/
theorem load_takes_winning_values (absolute : root.isAbsolute = true)
    (given : FileGives w root table) (sections : SectionsAreTables table)
    (apart : VariablesAreApart w.environment) :
    ((∃ settings, load w root = .ok settings) ↔
      ∀ setting value, winning? w.environment table setting = some value →
        ∃ text, value.text? = some text) ∧
    ∀ settings, load w root = .ok settings → ∀ setting,
      setting.get settings =
        match winning? w.environment table setting with
        | some value => value.text?.map RawText.ofString
        | none => setting.get .default := by
  have loaded : load w root = decode (table.merge (fromEnvironment w.environment)) := by
    rw [load, fromFile_eq absolute given]
    rfl
  have leads (setting : Setting) :
      (table.merge (fromEnvironment w.environment)).Open setting.key :=
    have given := fromEnvironment_open (apart.aside setting)
    (sections.leads setting).merge given.1 given.2
  constructor
  · rw [loaded, exists_decode_iff leads]
    refine forall_congr' fun setting => ?_
    rw [textAt?_merge_eq_winning apart]
    cases winning? w.environment table setting with
    | none => simp
    | some value => simp [Option.ne_none_iff_exists']
  · intro settings done setting
    rw [get_of_decode leads (loaded ▸ done), Table.rawAt?, textAt?_merge_eq_winning apart]
    cases winning? w.environment table setting <;> rfl

/-- A settings file with two settings of the documentation and the place of a tool. -/
def layeredFile : String := "docs.site_dir = 'pages'\ndocs.man_format = 'html'\ntools.zig = '/zig'"

/-- What this file gives. -/
def layeredTable : Table :=
  ((Toml.read? layeredFile).map fun entries => entries.table (.file ⟨"x.toml"⟩)).getD .empty

/-- A project with this file, and variables for one of its settings, in two spellings, and for
another setting. -/
def layeredWorld : World :=
  ⟨.ofList [("x.toml", .file layeredFile.toUTF8 false)], [],
    ⟨[("VASM_X_docs__man_format", "7"), ("vasm_x_docs.man_out", "'m'"),
      ("VASM_X_DOCS__MAN_FORMAT", "manpage")]⟩⟩

/-- Of a section that variables give a part of, the rest is taken from the file. -/
theorem load_takes_winning_values_layered :
    ∃ settings, load layeredWorld ⟨"/"⟩ = .ok settings ∧ settings.docs.siteDir = "pages" ∧
      settings.docs.manFormat = "manpage" ∧ settings.docs.manOut = "m" ∧
      settings.docs.manSrc = "man-src" ∧ settings.tools.zig = some ⟨"/zig"⟩ := by
  have given : FileGives layeredWorld ⟨"/"⟩ layeredTable := by
    have node : layeredWorld.node ⟨"/x.toml"⟩ true = .ok (.file layeredFile.toUTF8 false) := by
      decide +kernel
    have readable : (Toml.read? layeredFile).isSome := by decide +kernel
    obtain ⟨entries, read⟩ := Option.isSome_iff_exists.mp readable
    have reported : reportedPath layeredWorld ⟨"/x.toml"⟩ = ⟨"x.toml"⟩ := by decide +kernel
    have wanted : (Path.mk "/").join ⟨fileName⟩ = ⟨"/x.toml"⟩ := by decide +kernel
    rw [FileGives, wanted, if_pos (by decide +kernel), reported]
    exact ⟨layeredFile, entries, World.readText_of_node node, read, by rw [layeredTable, read]; rfl⟩
  have sections : SectionsAreTables layeredTable := by
    intro name listed value found
    have deep : ∃ field, (layeredTable.at? [name, field]).isSome := by
      obtain rfl | rfl : name = docsSection.name ∨ name = toolsSection.name := by
        simpa using listed
      · exact ⟨"site_dir", by decide +kernel⟩
      · exact ⟨"zig", by decide +kernel⟩
    obtain ⟨field, below⟩ := deep
    obtain ⟨last, leads⟩ := Option.isSome_iff_exists.mp below
    obtain ⟨source, inner, known⟩ := Table.exists_table_of_at? leads
    exact ⟨source, inner, Option.some.inj (found.symm.trans known)⟩
  have apart : VariablesAreApart layeredWorld.environment := by
    have keys : ∀ pair ∈ layeredWorld.environment.pairs,
        variableKey? pair.1 = some ["docs", "man_format"] ∨
          variableKey? pair.1 = some ["docs", "man_out"] := by
      decide +kernel
    intro pair listed key named
    obtain known | known := keys pair listed <;> cases named.symm.trans known
    · exact ⟨by decide, by decide, by decide⟩
    · exact ⟨by decide, by decide, by decide⟩
  have counts : ∀ setting,
      (winning? layeredWorld.environment layeredTable setting).map Value.text? =
        match setting with
        | .siteDir => some (some "pages")
        | .manFormat => some (some "manpage")
        | .manOut => some (some "m")
        | .zig => some (some "/zig")
        | _ => none := by
    decide +kernel
  obtain ⟨loads, gives⟩ := load_takes_winning_values (by decide) given sections apart
  obtain ⟨settings, loaded⟩ := loads.mpr fun setting value won => by
    have own := counts setting
    rw [won] at own
    cases setting <;> simp_all
  have each : ∀ setting, setting.get settings =
      (((winning? layeredWorld.environment layeredTable setting).map Value.text?).map
        (Option.map RawText.ofString)).getD (setting.get .default) := by
    intro setting
    rw [gives settings loaded]
    cases winning? layeredWorld.environment layeredTable setting <;> rfl
  simp only [counts] at each
  have text {a b : String} (same : some (a : RawText) = some (b : RawText)) : a = b :=
    RawText.ofString_inj.mp (Option.some.inj same)
  refine ⟨settings, loaded, text (each .siteDir), text (each .manFormat), text (each .manOut),
    text (each .manSrc), ?_⟩
  obtain ⟨zig, found, own⟩ := Option.map_eq_some_iff.mp (each .zig)
  cases zig
  cases own
  exact found

end BuildRunner.Settings
