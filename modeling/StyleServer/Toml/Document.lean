/-
  TOML documents.

  The pairs behind a header belong to its table.  A table has one header, though
  the headers of tables inside it may come before; an array of tables has one
  header for each of its tables.  Both are refused where a dotted key has been,
  and where a value stands.
-/
import StyleServer.Toml.Statement

namespace StyleServer

namespace Toml

/-- A header, or none at the front of a document, with the pairs behind it. -/
structure Block where
  header : Option Statement
  pairs : List (Key × Toml)

/-- The blocks of statements, from behind the header of the first. -/
def blocksFrom (header : Option Statement) : List Statement → Block × List Block
  | [] => (⟨header, []⟩, [])
  | .pair key value :: rest =>
    let (first, more) := blocksFrom header rest
    (⟨first.header, (key, value) :: first.pairs⟩, more)
  | statement :: rest =>
    let (first, more) := blocksFrom (some statement) rest
    (⟨header, []⟩, first :: more)

/-- Entries with the pairs of a block. -/
def addPairs (pairs : List (Key × Toml)) (entries : Entries) : Option Entries :=
  pairs.foldlM (fun entries (key, value) => addPair key value entries) entries

/-- Gives a name its table, with the pairs behind its header. -/
def addTable (name : String) (pairs : List (Key × Toml)) : Change := fun entries => do
  let inner ← match entries.lookup name with
    | none => some []
    | some (.table .passed inner) => some inner
    | some _ => none
  return put name (.table .header (← addPairs pairs inner)) entries

/-- Gives a name one more table of its array, with the pairs behind its header. -/
def addItem (name : String) (pairs : List (Key × Toml)) : Change := fun entries => do
  let items ← match entries.lookup name with
    | none => some []
    | some (.array true items) => some items
    | some _ => none
  return put name (.array true (items ++ [.table .header (← addPairs pairs [])])) entries

/-- Entries with those of a block. -/
def addBlock (entries : Entries) (block : Block) : Option Entries :=
  match block.header with
  | some (.header key) => do changeAt (addTable (← key.getLast?) block.pairs) key.dropLast entries
  | some (.arrayHeader key) => do
    changeAt (addItem (← key.getLast?) block.pairs) key.dropLast entries
  | _ => addPairs block.pairs entries

/-- The table that a document is; `none` when it is malformed. -/
def document? (text : String) : Option Toml := do
  let (first, more) := blocksFrom none (← statements? text.toList)
  return .table .header (← (first :: more).foldlM addBlock [])

end Toml

end StyleServer
