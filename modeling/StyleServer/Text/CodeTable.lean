/-
  Tables of characters, written as texts.

  A table has entries with blanks or line ends between them.  An entry is the
  number of a character, or those of the first and the last of several with a
  dash between them; behind a colon it gives what the table says of them.  All
  numbers are in base sixteen.
-/
import StyleServer.Text.Digit
import StyleServer.Text.Fragment

namespace StyleServer

/-- What a table says of the characters from `first` to `last`. -/
structure CodeRange (α : Type) where
  first : Nat
  last : Nat
  value : α

/-- A table of characters. -/
abbrev CodeTable (α : Type) := List (CodeRange α)

/-- The number that a text writes in base sixteen. -/
def hexNumber (text : Text) : Nat := ofDigits 16 (text.filterMap (digit? 16))

/-- The character whose number a text writes. -/
def hexChar (text : Text) : Char := Char.ofNat (hexNumber text)

namespace CodeRange

/-- The entry that a text writes, whose value `read` makes. -/
def ofText {α : Type} (read : Text → α) (text : Text) : CodeRange α :=
  let numbers := Text.splitOn '-' (text.takeWhile (· != ':'))
  let first := hexNumber (numbers.headD [])
  let last := hexNumber (numbers.getLastD [])
  ⟨first, last, read ((text.dropWhile (· != ':')).drop 1)⟩

/-- The entry is about a character. -/
def contains {α : Type} (r : CodeRange α) (c : Char) : Bool :=
  r.first ≤ c.toNat && c.toNat ≤ r.last

end CodeRange

namespace CodeTable

/-- The table that a text writes, whose values `read` makes. -/
def ofText {α : Type} (read : Text → α) (source : String) : CodeTable α :=
  (source.splitOn "\n").flatMap fun line =>
    ((Text.splitOn ' ' line.toList).filter (!·.isEmpty)).map (CodeRange.ofText read)

/-- The entry about a character. -/
def find? {α : Type} (t : CodeTable α) (c : Char) : Option (CodeRange α) :=
  List.find? (·.contains c) t

/-- What the table says of a character. -/
def value? {α : Type} (t : CodeTable α) (c : Char) : Option α := (t.find? c).map (·.value)

end CodeTable

end StyleServer
