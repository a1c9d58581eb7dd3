import BuildRunner.Proofs.Settings.Merge
import BuildRunner.Settings.Decode

/-!
# Settings one by one

There are eight settings, each the text at the end of a way of two names. Where sections are tables,
settings are decoded when every value at the end of such a way is a text (`exists_decode_iff`), and
then each setting is its own text, or its default where it has no value (`get_of_decode`). What the
other settings are does not matter.
-/

namespace BuildRunner.Settings

/-- A single setting. -/
inductive Setting where
  | webFormat
  | manFormat
  | siteDir
  | manSrc
  | manOut
  | webManOut
  | zig
  | asciidoctor
  deriving DecidableEq, Repr

namespace Setting

/-- The names on the way down to a setting. -/
def key : Setting → List String
  | webFormat => ["docs", "web_format"]
  | manFormat => ["docs", "man_format"]
  | siteDir => ["docs", "site_dir"]
  | manSrc => ["docs", "man_src"]
  | manOut => ["docs", "man_out"]
  | webManOut => ["docs", "web_man_out"]
  | zig => ["tools", "zig"]
  | asciidoctor => ["tools", "asciidoctor"]

/-- The text of a setting, as a path is written with it. The places of tools may have none. -/
def get (settings : Settings) : Setting → Option RawText
  | webFormat => some (settings.docs.webFormat : RawText)
  | manFormat => some (settings.docs.manFormat : RawText)
  | siteDir => some (settings.docs.siteDir : RawText)
  | manSrc => some (settings.docs.manSrc : RawText)
  | manOut => some (settings.docs.manOut : RawText)
  | webManOut => some (settings.docs.webManOut : RawText)
  | zig => settings.tools.zig.map Path.raw
  | asciidoctor => settings.tools.asciidoctor.map Path.raw

/-- All settings. -/
def all : List Setting :=
  [webFormat, manFormat, siteDir, manSrc, manOut, webManOut, zig, asciidoctor]

theorem mem_all (setting : Setting) : setting ∈ all := by
  cases setting <;> decide

instance decidableForall {P : Setting → Prop} [DecidablePred P] :
    Decidable (∀ setting, P setting) :=
  decidable_of_iff (∀ setting ∈ all, P setting)
    ⟨fun holds setting => holds setting (mem_all setting), fun holds setting _ => holds setting⟩

/-- The way to a setting is the name of a section and a name in it. -/
theorem exists_key_eq (setting : Setting) :
    ∃ part ∈ [docsSection.name, toolsSection.name], ∃ name, setting.key = [part, name] := by
  cases setting <;> simp [key, docsSection, toolsSection]

/-- The settings are the fields of the two sections. -/
theorem forall_key_iff {P : List String → Prop} : (∀ setting : Setting, P setting.key) ↔
    (∀ field ∈ docsSection.named, P [docsSection.name, field.name]) ∧
      ∀ field ∈ toolsSection.named, P [toolsSection.name, field.name] := by
  constructor
  · intro all
    simp only [docsSection, toolsSection, List.forall_mem_cons, List.not_mem_nil, false_implies,
      implies_true, and_true]
    exact ⟨⟨all manFormat, all manOut, all manSrc, all siteDir, all webFormat, all webManOut⟩,
      all asciidoctor, all zig⟩
  · rintro ⟨docs, tools⟩ setting
    simp only [docsSection, toolsSection, List.forall_mem_cons, List.not_mem_nil, false_implies,
      implies_true, and_true] at docs tools
    obtain ⟨manFormat, manOut, manSrc, siteDir, webFormat, webManOut⟩ := docs
    cases setting <;> first | assumption | exact tools.1 | exact tools.2

end Setting

/-- The text at the end of a way, as a path is written with it, where there is a value. -/
def Table.rawAt? (table : Table) (way : List String) : Option (Option RawText) :=
  (table.textAt? way).map (Option.map RawText.ofString)

/-! ## The fields of a section -/

variable {α : Type} {fields : List (Field α)} {field : Field α} {part : Section α}
  {all entries : Table} {settings done : α} {read : α → Option RawText} {name wanted : String}

/-- Of the fields, those of a name set what is read, and the others leave it. -/
def Sets (fields : List (Field α)) (name : String) (read : α → Option RawText) : Prop :=
  ∀ field ∈ fields, ∀ text settings,
    read (field.set text settings) = if field.name = name then some (text : RawText)
      else read settings

/-- A field takes a text and nothing else. -/
theorem Field.decode_eq_ok {key : List String} {value : Value} :
    field.decode key value settings = .ok done ↔
      ∃ text, value.text? = some text ∧ done = field.set text settings := by
  fun_cases Field.decode field key value settings with
  | case1 source text => simp [Value.text?, eq_comm]
  | case2 value no =>
    rw [Value.text?]
    · simp
    · exact no

/-- Without values nothing is set. -/
theorem decodeNamed_empty : decodeNamed name .empty fields settings = .ok settings := by
  induction fields with
  | nil => rfl
  | cons field fields ih => exact ih

/-- The first field is set to its text, or left alone where it has no value, and then the others
are. -/
theorem decodeNamed_cons_eq_ok :
    decodeNamed name entries (field :: fields) settings = .ok done ↔
      (entries.textAt? [field.name] = none ∧ decodeNamed name entries fields settings = .ok done) ∨
        ∃ text, entries.textAt? [field.name] = some (some text) ∧
          decodeNamed name entries fields (field.set text settings) = .ok done := by
  rw [decodeNamed, Table.textAt?, Table.at?]
  cases entries.find? field.name with
  | none => simp
  | some value =>
    dsimp only
    cases own : field.decode [name, field.name] value settings with
    | error refusal =>
      have no : ∀ text, value.text? ≠ some text := by
        intro text found
        cases own.symm.trans (Field.decode_eq_ok.mpr ⟨text, found, rfl⟩)
      simp [bind, Except.bind, no]
    | ok mid =>
      obtain ⟨text, found, rfl⟩ := Field.decode_eq_ok.mp own
      simp [bind, Except.bind, found]

/-- Fields are set when each has a text or no value at all. -/
theorem exists_decodeNamed_iff :
    (∃ done, decodeNamed name entries fields settings = .ok done) ↔
      ∀ field ∈ fields, entries.textAt? [field.name] ≠ some none := by
  induction fields generalizing settings with
  | nil => simp [decodeNamed]
  | cons field fields ih =>
    simp only [decodeNamed_cons_eq_ok, List.forall_mem_cons]
    rcases entries.textAt? [field.name] with - | - | text <;> simp [ih]

/-- What is read after the fields are set is the text under the name of the field that sets it, or
what it was before where there is no value. -/
theorem read_of_decodeNamed (sets : Sets fields wanted read)
    (run : decodeNamed name entries fields settings = .ok done) :
    read done = if wanted ∈ fields.map Field.name
      then (entries.rawAt? [wanted]).getD (read settings) else read settings := by
  induction fields generalizing settings with
  | nil =>
    cases run
    rfl
  | cons first fields ih =>
    obtain ⟨own, others⟩ := List.forall_mem_cons.mp sets
    obtain ⟨mid, set, rest⟩ : ∃ mid, read mid = (if first.name = wanted
        then (entries.rawAt? [wanted]).getD (read settings) else read settings) ∧
        decodeNamed name entries fields mid = .ok done := by
      obtain ⟨found, rest⟩ | ⟨text, found, rest⟩ := decodeNamed_cons_eq_ok.mp run
      · refine ⟨settings, ?_, rest⟩
        split
        · next same => rw [← same, Table.rawAt?, found]; rfl
        · rfl
      · refine ⟨_, (own text settings).trans ?_, rest⟩
        split
        · next same => rw [← same, Table.rawAt?, found]; rfl
        · rfl
    rw [ih others rest, set]
    -- To set a field to the same text once more changes nothing.
    cases entries.rawAt? [wanted] <;> grind

/-! ## Sections -/

/-- Where a section is a table, its fields are decoded from what it holds. -/
theorem Section.exists_decode_eq (leads : all.Open [part.name, name]) :
    ∃ entries, part.decode all = decodeNamed part.name entries part.named part.default ∧
      ∀ name, all.textAt? [part.name, name] = entries.textAt? [name] := by
  rw [Section.decode]
  simp only [Table.textAt?, Table.at?]
  rw [Table.Open] at leads
  cases found : all.find? part.name with
  | none => exact ⟨.empty, decodeNamed_empty.symm, fun _ => rfl⟩
  | some value =>
    rw [found] at leads
    cases value with
    | table source entries => exact ⟨entries, rfl, fun _ => rfl⟩
    | scalar source content => exact leads.elim
    | list source items => exact leads.elim

/-- A section is decoded when every value it has for a field is a text. -/
theorem Section.exists_decode_iff (leads : all.Open [part.name, name]) :
    (∃ done, part.decode all = .ok done) ↔
      ∀ field ∈ part.named, all.textAt? [part.name, field.name] ≠ some none := by
  obtain ⟨entries, run, same⟩ := exists_decode_eq leads
  simp only [run, same, exists_decodeNamed_iff]

/-- What a field of a decoded section sets is its own text, or its default. -/
theorem Section.read_of_decode (part : Section α) (read : α → Option RawText)
    (leads : all.Open [part.name, name]) (sets : Sets part.named name read)
    (listed : name ∈ part.named.map Field.name) (run : part.decode all = .ok done) :
    read done = (all.rawAt? [part.name, name]).getD (read part.default) := by
  obtain ⟨entries, decoded, same⟩ := exists_decode_eq leads
  rw [Table.rawAt?, same, ← Table.rawAt?, read_of_decodeNamed sets (decoded ▸ run), if_pos listed]

/-! ## All settings -/

theorem decode_eq_ok {settings : Settings} : decode all = .ok settings ↔
    docsSection.decode all = .ok settings.docs ∧ toolsSection.decode all = .ok settings.tools := by
  obtain ⟨docs, tools⟩ := settings
  rw [decode]
  cases docsSection.decode all with
  | error refusal => simp [bind, Except.bind]
  | ok first =>
    cases toolsSection.decode all with
    | error refusal => simp [bind, Except.bind]
    | ok second => simp [bind, Except.bind, pure, Except.pure]

variable {settings : Settings}

/-- Settings are decoded when every value of a setting is a text. -/
theorem exists_decode_iff (leads : ∀ setting : Setting, all.Open setting.key) :
    (∃ settings, decode all = .ok settings) ↔
      ∀ setting : Setting, all.textAt? setting.key ≠ some none := by
  rw [Setting.forall_key_iff (P := fun key => all.textAt? key ≠ some none),
    ← Section.exists_decode_iff (leads .webFormat), ← Section.exists_decode_iff (leads .zig)]
  constructor
  · rintro ⟨settings, run⟩
    exact ⟨⟨_, (decode_eq_ok.mp run).1⟩, ⟨_, (decode_eq_ok.mp run).2⟩⟩
  · rintro ⟨⟨docs, first⟩, ⟨tools, second⟩⟩
    exact ⟨⟨docs, tools⟩, decode_eq_ok.mpr ⟨first, second⟩⟩

/-- Each setting has its own text, or its default where it has no value. -/
theorem get_of_decode (leads : ∀ setting : Setting, all.Open setting.key)
    (run : decode all = .ok settings) (setting : Setting) :
    setting.get settings = (all.rawAt? setting.key).getD (setting.get .default) := by
  obtain ⟨docs, tools⟩ := decode_eq_ok.mp run
  cases setting with
  | webFormat =>
    exact docsSection.read_of_decode (fun docs => some (docs.webFormat : RawText))
      (leads .webFormat) (by simp [Sets, docsSection]) (by simp [docsSection]) docs
  | manFormat =>
    exact docsSection.read_of_decode (fun docs => some (docs.manFormat : RawText))
      (leads .manFormat) (by simp [Sets, docsSection]) (by simp [docsSection]) docs
  | siteDir =>
    exact docsSection.read_of_decode (fun docs => some (docs.siteDir : RawText))
      (leads .siteDir) (by simp [Sets, docsSection]) (by simp [docsSection]) docs
  | manSrc =>
    exact docsSection.read_of_decode (fun docs => some (docs.manSrc : RawText))
      (leads .manSrc) (by simp [Sets, docsSection]) (by simp [docsSection]) docs
  | manOut =>
    exact docsSection.read_of_decode (fun docs => some (docs.manOut : RawText))
      (leads .manOut) (by simp [Sets, docsSection]) (by simp [docsSection]) docs
  | webManOut =>
    exact docsSection.read_of_decode (fun docs => some (docs.webManOut : RawText))
      (leads .webManOut) (by simp [Sets, docsSection]) (by simp [docsSection]) docs
  | zig =>
    exact toolsSection.read_of_decode (fun tools => tools.zig.map Path.raw) (leads .zig)
      (by simp [Sets, toolsSection]) (by simp [toolsSection]) tools
  | asciidoctor =>
    exact toolsSection.read_of_decode (fun tools => tools.asciidoctor.map Path.raw)
      (leads .asciidoctor) (by simp [Sets, toolsSection]) (by simp [toolsSection]) tools

end BuildRunner.Settings
