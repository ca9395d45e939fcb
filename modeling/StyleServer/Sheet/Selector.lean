/-
  Selectors of a rule.

  A clause is split at its commas; each part is trimmed and read by its first
  character.  A part that names nothing is left out.
-/
import StyleServer.Text.Fragment

namespace StyleServer

/-- What the first part of a selector refers to. -/
inductive SelectorKind where
  /-- `.name` -/
  | styleClass
  /-- `#name` -/
  | id
  /-- `Name` -/
  | element
  /-- `*` -/
  | universal
  /-- `:name` -/
  | pseudo
deriving DecidableEq

/-- One of the selectors of a rule. -/
structure Selector where
  kind : SelectorKind
  /-- The name without the sign before it. -/
  name : String
  /-- The selector as written. -/
  text : String
  span : Span
deriving DecidableEq

/-- A character of a name: an ASCII letter or digit, `-`, `_`, or any character
    outside ASCII. -/
def isNameChar (c : Char) : Bool := c.isAlphanum || c == '-' || c == '_' || 128 ≤ c.toNat

namespace Selector

/-- Kind of the selector that begins with `c`. -/
def kindOf (c : Char) : SelectorKind :=
  if c = '.' then .styleClass
  else if c = '#' then .id
  else if c = '*' then .universal
  else if c = ':' then .pseudo
  else .element

/-- The name that a selector of a kind gives; `chars` are all of its characters. -/
def nameOf (kind : SelectorKind) (chars : Text) : Text :=
  match kind with
  | .universal => ['*']
  | .styleClass | .id => (chars.drop 1).takeWhile isNameChar
  | .pseudo => (chars.dropWhile (· == ':')).takeWhile isNameChar
  | .element => chars.takeWhile isNameChar

/-- The selector written by a trimmed part of a clause. -/
def ofFragment? (f : Fragment) : Option Selector :=
  match f.chars with
  | [] => none
  | c :: _ =>
    let name := nameOf (kindOf c) f.chars
    if name.isEmpty then none
    else some ⟨kindOf c, String.ofList name, f.text, f.span⟩

/-- The selectors of a clause. -/
def listOf (clause : Fragment) : List Selector :=
  (clause.splitOn ',').filterMap fun part => ofFragment? part.trim

end Selector

end StyleServer
