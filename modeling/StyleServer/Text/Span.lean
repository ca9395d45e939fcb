/-
  Byte spans of a text.

  * `Span`: a half-open range of byte offsets.
  * `Span.touches`: an offset falls on a span, its end included, so that a
    cursor right behind a word still hits it.
  * `Span.cover`: the least span holding two others.
-/
namespace StyleServer

/-- A half-open range of byte offsets. -/
structure Span where
  start : Nat
  stop : Nat
deriving DecidableEq

namespace Span

/-- Number of bytes between the two ends. -/
def size (s : Span) : Nat := s.stop - s.start

/-- The two ends coincide. -/
def isEmpty (s : Span) : Bool := s.start == s.stop

/-- `t` lies inside `s`. -/
def holds (s t : Span) : Bool := s.start ≤ t.start && t.stop ≤ s.stop

/-- `offset` falls on `s`, the end included. -/
def touches (s : Span) (offset : Nat) : Bool := s.start ≤ offset && offset ≤ s.stop

/-- `offset` falls on `s`, the end excluded. -/
def covers (s : Span) (offset : Nat) : Bool := s.start ≤ offset && offset < s.stop

/-- The least span holding `s` and `t`. -/
def cover (s t : Span) : Span := ⟨min s.start t.start, max s.stop t.stop⟩

/-- The empty span at an offset. -/
def point (offset : Nat) : Span := ⟨offset, offset⟩

@[simp] theorem touches_iff {s : Span} {offset : Nat} :
    s.touches offset = true ↔ s.start ≤ offset ∧ offset ≤ s.stop := by
  simp [touches]

@[simp] theorem covers_iff {s : Span} {offset : Nat} :
    s.covers offset = true ↔ s.start ≤ offset ∧ offset < s.stop := by
  simp [covers]

@[simp] theorem holds_iff {s t : Span} :
    s.holds t = true ↔ s.start ≤ t.start ∧ t.stop ≤ s.stop := by
  simp [holds]

end Span

end StyleServer
