/-
  Positions by line and column.

  A column counts UTF-16 units from the start of its line.  Positions are
  ordered by line, then by column; a range holds both of its ends.
-/
namespace StyleServer

/-- A line and a column in UTF-16 units, both counted from zero. -/
structure Position where
  line : Nat
  character : Nat
deriving DecidableEq

namespace Position

/-- Line first, then column. -/
def le (p q : Position) : Bool :=
  p.line < q.line || (p.line == q.line && p.character ≤ q.character)

end Position

/-- The positions from `start` to `stop`. -/
structure Range where
  start : Position
  stop : Position
deriving DecidableEq

namespace Range

/-- `p` lies between the ends, both included. -/
def holds (r : Range) (p : Position) : Bool := r.start.le p && p.le r.stop

/-- The empty range at the start of a text. -/
def origin : Range := ⟨⟨0, 0⟩, ⟨0, 0⟩⟩

/-- Order by start, then by end. -/
def le (r s : Range) : Bool :=
  if r.start = s.start then r.stop.le s.stop else r.start.le s.start

end Range

end StyleServer
