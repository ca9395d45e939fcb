/-
  Completion items: what an editor offers to insert.
-/
namespace StyleServer

/-- What an item stands for. -/
inductive ItemKind where
  | customProperty
  | styleClass
  | property
  | value
  | snippet
  | color
  | keyword
deriving DecidableEq

/-- Something to insert. -/
structure CompletionItem where
  label : String
  kind : ItemKind
  detail : Option String := none
  /-- For a reader, with markup. -/
  documentation : Option String := none
  /-- Inserted in place of the label. -/
  insertText : Option String := none
  /-- The inserted text has places to fill in. -/
  hasPlaces : Bool := false
  /-- Compared with what is typed in place of the label. -/
  filterText : Option String := none
  /-- Decides on the order in place of the label. -/
  sortText : Option String := none
deriving DecidableEq

end StyleServer
