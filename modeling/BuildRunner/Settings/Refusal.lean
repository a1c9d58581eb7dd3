import BuildRunner.Settings.Value

/-!
# Refused settings

Settings are refused as a whole, when the settings file is no TOML document or a value is not of the
kind its key asks for. The text of the second kind names the value, the kind, the key and the source
of the value.
-/

namespace BuildRunner.Settings

/-- What a key asks for. -/
inductive Expected where
  | text
  | path
  /-- The section of documentation settings. -/
  | docs
  /-- The section of tools. -/
  | tools
  deriving DecidableEq, Repr

/-- What a key asks for, as it is shown. -/
def Expected.shown : Expected → String
  | text => "a string"
  | path => "path string"
  | docs => "struct DocsConfig"
  | tools => "struct ToolsConfig"

/-- A source as it is shown. -/
def Source.shown : Source → String
  | file path => path.text ++ " TOML file"
  | environment => "`VASM_X_` environment variable(s)"

/-- The names on the way to a value as its source shows them: those of a file stand below the name
of the default profile, those of variables are in capitals. -/
def Source.keyShown (source : Source) (key : List String) : String :=
  match source with
  | file _ => String.intercalate "." ("default" :: key)
  | environment => String.ofList ((String.intercalate "." key).toList.map Char.toUpper)

/-- Why settings are refused. -/
inductive Refusal where
  /-- The settings file is no TOML document. -/
  | malformed
  /-- A value, as it is shown, is not what its key asks for. -/
  | mismatch (found : String) (expected : Expected) (key : List String) (source : Source)
  deriving DecidableEq, Repr

/-- The text of a refusal. -/
def Refusal.message : Refusal → String
  | malformed => "the settings file cannot be read"
  | mismatch found expected key source =>
    "invalid type: found " ++ found ++ ", expected " ++ expected.shown ++ " for key "
      ++ Text.quoted (source.keyShown key) ++ " in " ++ source.shown

/-- The refusal of a value. -/
def Value.refused (value : Value) (expected : Expected) (key : List String) : Refusal :=
  .mismatch value.shown expected key value.source

end BuildRunner.Settings
