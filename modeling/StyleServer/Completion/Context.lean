/-
  What is being typed at an offset of a style sheet.

  Only the braces and semicolons before the offset count.  Outside of all
  blocks a selector is typed.  Inside, the text behind the last of them is the
  declaration so far: up to its first colon the name, then the value.
-/
import StyleServer.Piece.Cut
import StyleServer.Text.Fragment

namespace StyleServer

/-- What is typed at an offset. -/
inductive CompletionContext where
  | selector
  /-- The name of a property, of which `typed` is there. -/
  | name (typed : String)
  /-- The value of a property. -/
  | value (property : String)
deriving DecidableEq

/-- A place among the marks of a text. -/
structure Cursor where
  /-- Number of open braces. -/
  depth : Nat
  /-- Offset behind the last mark. -/
  segment : Nat
deriving DecidableEq

namespace Cursor

/-- The place behind a token. -/
def step (c : Cursor) (t : Token) : Cursor :=
  match t.kind with
  | .mark .openBrace => ⟨c.depth + 1, t.span.stop⟩
  | .mark .closeBrace => ⟨c.depth - 1, t.span.stop⟩
  | .mark .semicolon => ⟨c.depth, t.span.stop⟩
  | .text => c

/-- The place behind the tokens that start before an offset. -/
def before (text : Text) (offset : Nat) : Cursor :=
  ((tokens text).takeWhile (·.span.start < offset)).foldl step ⟨0, 0⟩

end Cursor

/-- What is typed when a declaration has been written so far. -/
def CompletionContext.ofDeclaration (written : Text) : CompletionContext :=
  match (Fragment.whole written).cutAt ':' with
  | some (before, _) => .value before.trim.text
  | none => .name (String.ofList written.trim)

/-- What is typed at an offset, which goes to the end when it lies past it. -/
def completionContext (text : Text) (offset : Nat) : Except Text.CutError CompletionContext :=
  let offset := min offset text.byteLength
  let cursor := Cursor.before text offset
  if cursor.depth = 0 then .ok .selector
  else match text.slice? ⟨cursor.segment, offset⟩ with
    | some written => .ok (.ofDeclaration written)
    | none => .error .insideCharacter

end StyleServer
