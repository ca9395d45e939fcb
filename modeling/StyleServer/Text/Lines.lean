/-
  Lines of a text, and the conversion between byte offsets and positions.

  A line ends before each line feed; a carriage return at its end does not
  belong to its span.  Columns count UTF-16 units.

  * `Text.position`: the position of an offset.  An offset inside a character
    goes to the start of that character, one past the end to the end.
  * `Text.offset?`: the offset of a position.  A column past the end of its line
    goes to the end of the line, and `none` means that there is no such line.
-/
import StyleServer.Text.Fragment
import StyleServer.Text.Position

namespace StyleServer

namespace Text

/-- The lines without their line feeds. -/
def lines (text : Text) : List Fragment := (Fragment.whole text).splitOn '\n'

/-- Number of lines; the empty text has one. -/
def lineCount (text : Text) : Nat := (lines text).length

/-- A line without the carriage return at its end. -/
def withoutReturn (line : Fragment) : Fragment :=
  if line.chars.getLast? = some '\r' then ⟨line.start, line.chars.dropLast⟩ else line

/-- The line of an index, without its terminator. -/
def line? (text : Text) (index : Nat) : Option Fragment := (lines text)[index]?.map withoutReturn

/-- The index of the line that holds an offset: the number of line feeds before it. -/
def lineOf : Text → Nat → Nat
  | [], _ => 0
  | c :: cs, offset =>
    if offset = 0 then 0
    else (if c = '\n' then 1 else 0) + lineOf cs (offset - c.utf8Size)

/-- The position behind a character that stands at position `p`. -/
def advance (p : Position) (c : Char) : Position :=
  if c = '\n' then ⟨p.line + 1, 0⟩ else ⟨p.line, p.character + units c⟩

/-- The position `offset` bytes behind `p`, at or before which the text goes on. -/
def positionFrom (p : Position) : Text → Nat → Position
  | [], _ => p
  | c :: cs, offset =>
    if offset < c.utf8Size then p else positionFrom (advance p c) cs (offset - c.utf8Size)

/-- The position of a byte offset. -/
def position (text : Text) (offset : Nat) : Position := positionFrom ⟨0, 0⟩ text offset

/-- The range of a span. -/
def range (text : Text) (span : Span) : Range := ⟨position text span.start, position text span.stop⟩

/-- The range of a whole line, or the origin when there is no such line. -/
def lineRange (text : Text) (index : Nat) : Range :=
  match line? text index with
  | some line => range text line.span
  | none => Range.origin

/-- Bytes up to the first character at or behind a column. -/
def columnOffset : Nat → Text → Nat
  | _, [] => 0
  | 0, _ :: _ => 0
  | column + 1, c :: cs => c.utf8Size + columnOffset (column + 1 - units c) cs

/-- The byte offset of a position; `none` when the line does not exist. -/
def offset? (text : Text) (p : Position) : Option Nat :=
  (line? text p.line).map fun line => line.start + columnOffset p.character line.chars

end Text

end StyleServer
