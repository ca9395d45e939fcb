/-
  Import directives.

  A directive is `@import`, a quoted path, plain or inside `url( )`, and a
  semicolon, with blanks between them; at least one stands behind the keyword.
-/
import StyleServer.Text.Fragment

namespace StyleServer

/-- An import directive. -/
structure Import where
  path : String
  /-- The path stands inside `url( )`. -/
  isUrl : Bool
  /-- The whole directive with its semicolon. -/
  span : Span
  /-- The path without its quotes. -/
  pathSpan : Span
deriving DecidableEq

/-- What follows a literal text at the front of a fragment. -/
def Fragment.behind? (literal : Text) (f : Fragment) : Option Fragment :=
  (literal.isPrefixOf? f.chars).map fun rest => ⟨f.start + Text.byteLength literal, rest⟩

namespace Import

/-- What follows `url(` and the blanks behind it. -/
def urlOpening? (f : Fragment) : Option Fragment := do
  let word ← f.behind? ['u', 'r', 'l']
  let paren ← (word.dropWhile isBlank).behind? ['(']
  return paren.dropWhile isBlank

/-- A quoted path that is not empty, and what follows its closing quote. -/
def quoted? (quote : Char) (f : Fragment) : Option (Fragment × Fragment) := do
  let inside ← f.behind? [quote]
  let path := inside.takeWhile (· != quote)
  let rest ← (inside.dropWhile (· != quote)).behind? [quote]
  if path.chars.isEmpty then none else return (path, rest)

/-- The directive written by a statement that ends with its semicolon. -/
def ofFragment? (statement : Fragment) : Option Import := do
  let keyword ← statement.behind? ['@', 'i', 'm', 'p', 'o', 'r', 't']
  let argument := keyword.dropWhile isBlank
  if argument.start = keyword.start then none
  let inner := urlOpening? argument
  let (path, rest) ← (quoted? '"' (inner.getD argument)).or (quoted? '\'' (inner.getD argument))
  let rest := rest.dropWhile isBlank
  let closing := rest.behind? [')']
  let rest := (closing.getD rest).dropWhile isBlank
  if rest.chars = [';'] ∧ inner.isSome = closing.isSome then
    return ⟨path.text, inner.isSome, statement.span, path.span⟩
  else none

end Import

end StyleServer
