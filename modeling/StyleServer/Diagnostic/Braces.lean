/-
  Brace structure.

  Along the tokens of a text, a depth counts the open braces.  A closing brace at
  depth zero is unmatched, and the depth stays there; an opening brace at depth
  one begins a nested block; a depth above zero at the end leaves a brace
  unclosed.
-/
import StyleServer.Diagnostic.Basic
import StyleServer.Piece.Cut
import StyleServer.Text.Lines

namespace StyleServer

/-- The depth behind a token. -/
def depthAfter (depth : Nat) (t : Token) : Nat :=
  match t.kind with
  | .mark .openBrace => depth + 1
  | .mark .closeBrace => depth - 1
  | .mark .semicolon | .text => depth

/-- What a token at a depth is reported for. -/
def braceIssue? (text : Text) (depth : Nat) (t : Token) : Option Diagnostic :=
  match t.kind with
  | .mark .openBrace => if depth = 1 then some ⟨text.range t.span, .nestedBlock⟩ else none
  | .mark .closeBrace =>
    if depth = 0 then
      some ⟨text.lineRange (text.lineOf t.span.start), .unmatchedClosingBrace⟩
    else none
  | .mark .semicolon | .text => none

/-- The diagnostics of tokens that begin at a depth. -/
def braceDiagnosticsFrom (text : Text) : Nat → List Token → List Diagnostic
  | depth, [] =>
    if 0 < depth then [⟨text.lineRange (text.lineCount - 1), .unclosedBrace⟩] else []
  | depth, t :: ts =>
    (braceIssue? text depth t).toList ++ braceDiagnosticsFrom text (depthAfter depth t) ts

/-- The diagnostics of a text's braces. -/
def braceDiagnostics (text : Text) : List Diagnostic := braceDiagnosticsFrom text 0 (tokens text)

end StyleServer
