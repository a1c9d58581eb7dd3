import BuildRunner.Settings.Basic
import BuildRunner.Settings.Refusal

/-!
# Settings from values

The settings that a table of values stands for. A section is a table of fields, or a list of their
values in the order of the fields. Fields that are missing keep their defaults, and names that are
no field count for nothing. Of several values of the wrong kind the first one in the order of the
names is reported.
-/

namespace BuildRunner.Settings

/-- A field of a section: its name, what it asks for, and how a text sets it. -/
structure Field (α : Type) where
  name : String
  expected : Expected
  set : String → α → α

/-- A section: its name, what its key asks for, its fields in the order in which a list gives them,
and in the order of their names. -/
structure Section (α : Type) where
  name : String
  expected : Expected
  listed : List (Field α)
  named : List (Field α)
  default : α

/-- The section of documentation settings. -/
def docsSection : Section Docs :=
  let webFormat : Field Docs := ⟨"web_format", .text, fun s docs => { docs with webFormat := s }⟩
  let manFormat : Field Docs := ⟨"man_format", .text, fun s docs => { docs with manFormat := s }⟩
  let siteDir : Field Docs := ⟨"site_dir", .text, fun s docs => { docs with siteDir := s }⟩
  let manSrc : Field Docs := ⟨"man_src", .text, fun s docs => { docs with manSrc := s }⟩
  let manOut : Field Docs := ⟨"man_out", .text, fun s docs => { docs with manOut := s }⟩
  let webManOut : Field Docs := ⟨"web_man_out", .text, fun s docs => { docs with webManOut := s }⟩
  { name := "docs"
    expected := .docs
    listed := [webFormat, manFormat, siteDir, manSrc, manOut, webManOut]
    named := [manFormat, manOut, manSrc, siteDir, webFormat, webManOut]
    default := .default }

/-- The section of tools. -/
def toolsSection : Section Tools :=
  let zig : Field Tools := ⟨"zig", .path, fun s tools => { tools with zig := some ⟨s⟩ }⟩
  let asciidoctor : Field Tools :=
    ⟨"asciidoctor", .path, fun s tools => { tools with asciidoctor := some ⟨s⟩ }⟩
  { name := "tools"
    expected := .tools
    listed := [zig, asciidoctor]
    named := [asciidoctor, zig]
    default := .default }

variable {α : Type}

/-- A section with one field set to a value. `key` is the way to the value. -/
def Field.decode (field : Field α) (key : List String) (value : Value) (settings : α) :
    Except Refusal α :=
  match value with
  | .scalar _ (.text text) => .ok (field.set text settings)
  | _ => .error (value.refused field.expected key)

/-- A section with the fields set that a table has values for. -/
def decodeNamed (name : String) (entries : Table) : List (Field α) → α → Except Refusal α
  | [], settings => .ok settings
  | field :: fields, settings =>
    match entries.find? field.name with
    | none => decodeNamed name entries fields settings
    | some value => do
      decodeNamed name entries fields (← field.decode [name, field.name] value settings)

/-- A section with its fields set one by one to the values of a list, the first of which is at
`place`. -/
def decodeListed (name : String) : Nat → List (Field α) → List Value → α → Except Refusal α
  | place, field :: fields, value :: values, settings => do
    let settings ← field.decode [name, toString place] value settings
    decodeListed name (place + 1) fields values settings
  | _, _, _, settings => .ok settings

/-- The section that a table of values holds. -/
def Section.decode (part : Section α) (all : Table) : Except Refusal α :=
  match all.find? part.name with
  | none => .ok part.default
  | some (.table _ entries) => decodeNamed part.name entries part.named part.default
  | some (.list _ values) => decodeListed part.name 0 part.listed values part.default
  | some value => .error (value.refused part.expected [part.name])

/-- The settings that a table of values holds. -/
def decode (all : Table) : Except Refusal Settings := do
  let docs ← docsSection.decode all
  let tools ← toolsSection.decode all
  return ⟨docs, tools⟩

end BuildRunner.Settings
