/-
  Values of TOML documents.

  A table remembers how it was written, because that decides on what may still
  be added to it (see `Toml/Document.lean`).
-/
namespace StyleServer

/-- How a table was written. -/
inductive TableKind where
  /-- Between braces; nothing can be added. -/
  | inline
  /-- Under a header of its own. -/
  | header
  /-- On the way to the table of a header. -/
  | passed
  /-- By a dotted key. -/
  | dotted
deriving DecidableEq

/-- A TOML value. -/
inductive Toml where
  | string (text : String)
  | integer (value : Int)
  /-- A number with a fraction or an exponent, as written. -/
  | float (text : String)
  /-- A number that is too large to be read. -/
  | outOfRange
  | boolean (value : Bool)
  /-- A date, a time or both, in the normal form. -/
  | date (text : String)
  /-- An array; one made of headers in double brackets can be added to. -/
  | array (ofTables : Bool) (items : List Toml)
  | table (kind : TableKind) (entries : List (String × Toml))

namespace Toml

/-- The entries of a table under their keys. -/
abbrev Entries := List (String × Toml)

/-- A list of entries with the value of a key put in place of the one it had, or at the
    end. -/
def put (key : String) (value : Toml) : Entries → Entries
  | [] => [(key, value)]
  | (k, v) :: rest => if k = key then (key, value) :: rest else (k, v) :: put key value rest

/-- The text of a string. -/
def string? : Toml → Option String
  | string text => some text
  | _ => none

/-- The value of a boolean. -/
def boolean? : Toml → Option Bool
  | boolean value => some value
  | _ => none

/-- The items of an array. -/
def array? : Toml → Option (List Toml)
  | array _ items => some items
  | _ => none

/-- The name under which a date gives its text when it stands for a table. -/
def dateKey : String := "$__toml_private_datetime"

/-- The entries of a table.  A date can stand for a table of one. -/
def entries? : Toml → Option Entries
  | table _ entries => some entries
  | date text => some [(dateKey, string text)]
  | _ => none

mutual

/-- The value holds no number that is out of range. -/
def isReadable : Toml → Bool
  | outOfRange => false
  | array _ items => allReadable items
  | table _ entries => allEntriesReadable entries
  | _ => true

/-- All items can be read. -/
def allReadable : List Toml → Bool
  | [] => true
  | item :: items => item.isReadable && allReadable items

/-- The values of all entries can be read. -/
def allEntriesReadable : List (String × Toml) → Bool
  | [] => true
  | (_, value) :: entries => value.isReadable && allEntriesReadable entries

end

/-- The strings of an array of strings. -/
def strings? (value : Toml) : Option (List String) := do (← value.array?).mapM string?

end Toml

end StyleServer
