/-
  Clauses: the text of a style sheet between its marks.

  A clause is what stands before a mark, up to the mark before it.  Its body
  runs from the first string or word to the last, whatever blanks and comments
  lie between them; a clause without any has no body.
-/
import StyleServer.Piece.Cut
import StyleServer.Text.Fragment

namespace StyleServer

/-- The text before a mark, and the mark. -/
structure Clause where
  /-- From the first string or word to the last. -/
  body : Option Fragment
  /-- Blanks and comments between the body and the mark. -/
  gap : Text
  mark : Mark
  /-- Where the mark stands. -/
  offset : Nat
deriving DecidableEq

/-- Pieces grouped by the mark that ends them, and those behind the last mark. -/
def splitMarks : List Piece → List (List Piece × Mark) × List Piece
  | [] => ([], [])
  | p :: ps =>
    match p.mark?, splitMarks ps with
    | some m, (groups, last) => (([], m) :: groups, last)
    | none, ([], last) => ([], p :: last)
    | none, ((group, m) :: groups, last) => ((p :: group, m) :: groups, last)

namespace Clause

/-- Pieces without the blanks and comments at their end. -/
def bodyPieces (ps : List Piece) : List Piece := (ps.reverse.dropWhile (!·.isText)).reverse

/-- The blanks and comments at the end of pieces. -/
def gapPieces (ps : List Piece) : List Piece := (ps.reverse.takeWhile (!·.isText)).reverse

/-- The body of pieces that begin at a byte offset. -/
def bodyOf? (offset : Nat) (ps : List Piece) : Option Fragment :=
  let lead := ps.takeWhile (!·.isText)
  let body := bodyPieces (ps.dropWhile (!·.isText))
  if body.isEmpty then none
  else some ⟨offset + Text.byteLength (Piece.allChars lead), Piece.allChars body⟩

/-- The end of a clause: where its mark stops. -/
def stop (c : Clause) : Nat := c.offset + 1

/-- Where a block opened by the clause begins: at its body, or at its mark. -/
def start (c : Clause) : Nat := (c.body.map Fragment.start).getD c.offset

/-- The clause from its body through its mark. -/
def statement (c : Clause) : Option Fragment :=
  c.body.map fun body => ⟨body.start, body.chars ++ c.gap ++ [c.mark.char]⟩

/-- The clauses of groups of pieces that begin at a byte offset, and the offset
    behind the last of them. -/
def ofGroups (offset : Nat) : List (List Piece × Mark) → List Clause × Nat
  | [] => ([], offset)
  | (ps, m) :: groups =>
    let markOffset := offset + Text.byteLength (Piece.allChars ps)
    let (clauses, stop) := ofGroups (markOffset + 1) groups
    (⟨bodyOf? offset ps, Piece.allChars (gapPieces ps), m, markOffset⟩ :: clauses, stop)

end Clause

/-- The clauses of a text, and the body behind the last mark. -/
def Text.clauses (text : Text) : List Clause × Option Fragment :=
  let (groups, last) := splitMarks text.pieces
  let (clauses, stop) := Clause.ofGroups 0 groups
  (clauses, Clause.bodyOf? stop last)

end StyleServer
