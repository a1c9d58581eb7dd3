import BuildRunner.Toml.Item
import BuildRunner.Toml.Number
import BuildRunner.Toml.Text

/-!
# The statements of a TOML document

A document is a row of statements: headers, headers of one more table under a name, and keys with
values. Values are texts, truth values, numbers, points in time, lists and inline tables.
-/

namespace BuildRunner.Toml

/-- A statement of a document. -/
inductive Statement where
  | header (key : List String)
  | rowHeader (key : List String)
  | pair (key : List String) (item : Item)

/-- The items of a list behind its opening bracket, with commas between them and perhaps one behind
the last, across lines; `fuel` bounds their count. -/
def items? (item? : List Char → Option (Item × List Char)) :
    Nat → List Char → Option (List Item × List Char)
  | 0, _ => none
  | fuel + 1, cs =>
    match skipGaps false cs with
    | ']' :: rest => some ([], rest)
    | cs => do
      let (first, rest) ← item? cs
      match skipGaps false rest with
      | ']' :: rest => some ([first], rest)
      | ',' :: rest =>
        let (others, rest) ← items? item? fuel rest
        return (first :: others, rest)
      | _ => none

/-- A key, an equals sign and an item. -/
def pair? (item? : List Char → Option (Item × List Char)) (cs : List Char) :
    Option ((List String × Item) × List Char) := do
  let (key, rest) ← key? cs
  match rest with
  | '=' :: rest =>
    let (item, rest) ← item? (skipSpaces rest)
    return ((key, item), rest)
  | _ => none

/-- The pairs of an inline table that is not empty, in one line, with commas between them; `fuel`
bounds their count. -/
def pairs? (item? : List Char → Option (Item × List Char)) :
    Nat → List Char → Option (List (List String × Item) × List Char)
  | 0, _ => none
  | fuel + 1, cs => do
    let (first, rest) ← pair? item? cs
    match skipSpaces rest with
    | '\x7d' :: rest => some ([first], rest)
    | ',' :: rest =>
      let (others, rest) ← pairs? item? fuel rest
      return (first :: others, rest)
    | _ => none

/-- The inline table of pairs. -/
def inlineTable? (pairs : List (List String × Item)) : Option Item := do
  let entries ← pairs.foldlM
    (fun entries (key, item) => Entries.insert key item .inline entries) Entries.empty
  return .table .inline entries

/-- An item without parts. A point in time is a table as far as settings are concerned. -/
def simple? (cs : List Char) : Option (Item × List Char) :=
  match cs with
  | 't' :: 'r' :: 'u' :: 'e' :: rest => some (.scalar (.truth true), rest)
  | 'f' :: 'a' :: 'l' :: 's' :: 'e' :: rest => some (.scalar (.truth false), rest)
  | _ =>
    match text? cs with
    | some (text, rest) => some (.scalar (.text (String.ofList text)), rest)
    | none =>
      match moment? cs with
      | some rest => some (.table .inline .empty, rest)
      | none => (number? cs).map fun (scalar, rest) => (.scalar scalar, rest)

/-- An item at the front of a text; `depth` bounds how deeply it is nested. -/
def item? : Nat → List Char → Option (Item × List Char)
  | depth, cs =>
    match cs with
    | '[' :: rest =>
      match depth with
      | 0 => none
      | depth + 1 => do
        let (items, rest) ← items? (item? depth) (rest.length + 1) rest
        return (.list items, rest)
    | '\x7b' :: rest =>
      match depth with
      | 0 => none
      | depth + 1 =>
        match skipSpaces rest with
        | '\x7d' :: rest => some (.table .inline .empty, rest)
        | rest => do
          let (pairs, rest) ← pairs? (item? depth) rest.length rest
          return (← inlineTable? pairs, rest)
    | _ => simple? cs

/-- A statement without the end of its line. -/
def statement? : List Char → Option (Statement × List Char)
  | '[' :: '[' :: rest => do
    match ← key? rest with
    | (key, ']' :: ']' :: rest) => some (.rowHeader key, rest)
    | _ => none
  | '[' :: rest => do
    match ← key? rest with
    | (key, ']' :: rest) => some (.header key, rest)
    | _ => none
  | cs => (pair? (item? nestingLimit) cs).map fun ((key, item), rest) => (.pair key item, rest)

/-- The statements of a text; `fuel` bounds the count of its lines. -/
def statements? : Nat → List Char → Option (List Statement)
  | 0, _ => none
  | _ + 1, [] => some []
  | fuel + 1, cs =>
    match lineEnd? cs with
    | some rest => statements? fuel rest
    | none => do
      let (statement, rest) ← statement? (skipSpaces cs)
      return statement :: (← statements? fuel (← lineEnd? rest))

end BuildRunner.Toml
