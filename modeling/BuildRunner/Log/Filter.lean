import BuildRunner.Log.Basic
import BuildRunner.Text.Blank
import BuildRunner.Text.Lines

/-!
# Which records are shown

A filter is read from a text of rules between commas. A rule gives a level to the parts whose name
starts with its own; a rule without a name gives it to all parts. Of the rules that fit a part the
one with the longest name decides. Behind a slash the text may ask for records that contain some
words.
-/

namespace BuildRunner.Log

/-- One rule of a filter: the greatest rank shown for the parts that it fits. -/
structure Rule where
  name : Option String
  rank : Nat
  deriving DecidableEq, Repr

/-- Rules, and words a record has to contain. -/
structure Filter where
  rules : List Rule
  words : Option String
  deriving DecidableEq, Repr

/-- A rank above those of all levels. -/
def greatestRank : Nat := 5

/-- The rank a level name stands for, whatever its case. -/
def rankOf? (name : String) : Option Nat :=
  match String.ofList (name.toList.map Char.toLower) with
  | "off" => some 0
  | "error" => some 1
  | "warn" => some 2
  | "info" => some 3
  | "debug" => some 4
  | "trace" => some 5
  | _ => none

/-- Reads one rule; a rule that cannot be read gives the text that is refused. -/
def Rule.read (text : String) : Except String Rule :=
  match Text.pieces '=' text with
  | [only] =>
    match rankOf? (Text.trimmed only) with
    | some rank => .ok ⟨none, rank⟩
    | none => .ok ⟨some only, greatestRank⟩
  | [name, level] =>
    let level := Text.trimmed level
    if level = "" then .ok ⟨some name, greatestRank⟩
    else
      match rankOf? level with
      | some rank => .ok ⟨some name, rank⟩
      | none => .error level
  | _ => .error text

/-- Adds a rule behind the others; it takes the place of a rule of the same name. -/
def Rule.addTo (rules : List Rule) (rule : Rule) : List Rule :=
  if rules.any fun old => old.name = rule.name then
    rules.map fun old => if old.name = rule.name then rule else old
  else rules ++ [rule]

/-- The rules of a text, and the parts of the text that cannot be read as rules. -/
def readRules (text : String) : List Rule × List String :=
  let texts := ((Text.pieces ',' text).map Text.trimmed).filter (· ≠ "")
  texts.foldl (fun (rules, refused) text =>
    match Rule.read text with
    | .ok rule => (rule.addTo rules, refused)
    | .error piece => (rules, refused ++ [piece])) ([], [])

/-- The filter of a text, and the parts of the text that cannot be read. Without a rule only errors
are shown. -/
def Filter.read (text : String) : Filter × List String :=
  let (rules, words, refused) :=
    match Text.pieces '/' text with
    | [rules] => let (rules, refused) := readRules rules; (rules, none, refused)
    | [rules, words] => let (rules, refused) := readRules rules; (rules, some words, refused)
    | _ => ([], none, [text])
  (⟨if rules = [] then [⟨none, 1⟩] else rules, words⟩, refused)

/-- How specific a rule is. -/
def Rule.weight (rule : Rule) : Nat :=
  (rule.name.getD "").utf8ByteSize

/-- Whether a rule says something about a part. -/
def Rule.fits (rule : Rule) (part : Part) : Bool :=
  (rule.name.getD "").toList.isPrefixOf part.name.toList

/-- The greatest rank that is shown for a part. -/
def Filter.rank (filter : Filter) (part : Part) : Nat :=
  let byWeight := filter.rules.mergeSort fun a b => a.weight ≤ b.weight
  match byWeight.reverse.find? fun rule => rule.fits part with
  | some rule => rule.rank
  | none => 0

/-- Whether a record is shown. -/
def Filter.shows (filter : Filter) (record : Record) : Bool :=
  record.level.rank ≤ filter.rank record.part &&
    Text.occursIn (filter.words.getD "").toList record.text.toList

/-- A record as it is shown: the level in five columns, the part and the text, whose further lines
are indented. -/
def Record.line (record : Record) : String :=
  let level := record.level.name
  let padding := String.ofList (List.replicate (5 - level.length) ' ')
  let text := String.intercalate "\n    " (Text.pieces '\n' record.text)
  "[" ++ level ++ padding ++ " " ++ record.part.name ++ "] " ++ text

end BuildRunner.Log
