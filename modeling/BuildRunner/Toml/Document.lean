import BuildRunner.Toml.Statement

/-!
# Reading a TOML document

The statements of a document, added one after the other to an empty table. Keys stand in the table
of the header before them, the first ones in the document itself.
-/

namespace BuildRunner.Toml

/-- A document as far as it was read: its entries and the header that keys stand under. -/
structure Draft where
  entries : Entries
  header : List String
  deriving Inhabited

namespace Draft

/-- The draft with one more statement. -/
def add (draft : Draft) : Statement → Option Draft
  | .header key => do return ⟨← draft.entries.define key, key⟩
  | .rowHeader key => do return ⟨← draft.entries.addRow key, key⟩
  | .pair key item => do
    let entries ← draft.entries.alter .implied (Entries.insert key item) draft.header .defined
    return { draft with entries }

end Draft

/-- The text without a byte order mark in front. -/
def dropMark : List Char → List Char
  | '\uFEFF' :: rest => rest
  | cs => cs

/-- The entries of a document. -/
def read? (text : String) : Option Entries := do
  let statements ← statements? (text.length + 2) (dropMark text.toList)
  let draft ← statements.foldlM Draft.add ⟨.empty, []⟩
  return draft.entries

end BuildRunner.Toml
