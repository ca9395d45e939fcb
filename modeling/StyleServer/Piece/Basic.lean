/-
  Pieces: what the text of a style sheet is made of.

  A text is a sequence of blanks, comments, marks (`{`, `}` and `;`), quoted
  strings and words; the strings and words are its significant text.

  A double slash opens a comment only at the start of a statement or as the
  first text of a line, so that addresses inside values stay whole.  `Place`
  says whether that holds where a piece begins.
-/
import StyleServer.Text.Utf8

namespace StyleServer

/-- The characters that give a style sheet its structure. -/
inductive Mark where
  | openBrace
  | closeBrace
  | semicolon
deriving DecidableEq

/-- The character of a mark. -/
def Mark.char : Mark → Char
  | openBrace => '\x7b'
  | closeBrace => '\x7d'
  | semicolon => ';'

/-- A piece of a style sheet's text, with all of its characters. -/
inductive Piece where
  /-- One blank character. -/
  | blank (c : Char)
  /-- From `/*` through the first `*/` behind it, or to the end of the text. -/
  | blockComment (chars : Text)
  /-- From `//` through the line feed, or to the end of the text. -/
  | lineComment (chars : Text)
  | mark (m : Mark)
  /-- From a quote through the next such quote that is not escaped, or to the end
      of the line. -/
  | quoted (chars : Text)
  /-- A run of other characters. -/
  | word (chars : Text)
deriving DecidableEq

namespace Piece

/-- The characters of a piece. -/
def chars : Piece → Text
  | blank c => [c]
  | blockComment cs | lineComment cs | quoted cs | word cs => cs
  | mark m => [m.char]

/-- Length in bytes. -/
def size (p : Piece) : Nat := Text.byteLength p.chars

/-- The mark of a piece that is one. -/
def mark? : Piece → Option Mark
  | mark m => some m
  | _ => none

/-- A quoted string or a word. -/
def isText : Piece → Bool
  | quoted _ | word _ => true
  | _ => false

/-- A comment of either kind. -/
def isComment : Piece → Bool
  | blockComment _ | lineComment _ => true
  | _ => false

/-- The characters of a run of pieces. -/
def allChars (ps : List Piece) : Text := ps.flatMap chars

end Piece

/-- Where a piece begins: behind a mark or at the start of the text, and with
    only blanks and comments before it on its line. -/
structure Place where
  statementStart : Bool
  lineStart : Bool
deriving DecidableEq

namespace Place

/-- The start of a text. -/
def origin : Place := ⟨true, true⟩

/-- A double slash opens a comment here. -/
def opensLineComment (p : Place) : Bool := p.statementStart || p.lineStart

/-- The place behind a piece. -/
def after (p : Place) : Piece → Place
  | .blank c => if c = '\n' then { p with lineStart := true } else p
  | .blockComment _ => p
  | .lineComment _ => { p with lineStart := true }
  | .mark _ => ⟨true, false⟩
  | .quoted _ | .word _ => ⟨false, false⟩

end Place

end StyleServer
