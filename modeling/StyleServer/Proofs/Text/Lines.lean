/-
  Offsets and positions.

  The position of an offset is what the characters before it make of the origin, one
  after the other.

  * `lines_induction`: a text is lines, each ended by a line feed, and a last line.
  * `lineAt_position`: the line of a position holds the characters before the offset
    back to the last line feed, and the column is their length.
  * `offset?_position`: from an offset to its position and back, unless the offset lies
    behind a carriage return that ends its line.
  * `position_fits`: positions in a text of less than 2^32 bytes fit in 32 bits.
-/
import StyleServer.Proofs.Text.Fragment
import StyleServer.Text.Lines

namespace StyleServer

/-- The line and the column fit in 32 bits. -/
def Position.Fits (p : Position) : Prop := p.line < UInt32.size ∧ p.character < UInt32.size

namespace Text

/-! ## The way to a position -/

theorem positionFrom_append (p : Position) (a b : Text) :
    positionFrom p (a ++ b) a.byteLength = a.foldl advance p := by
  induction a generalizing p with
  | nil =>
    cases b with
    | nil => rfl
    | cons c b => rw [List.nil_append, positionFrom, byteLength_nil, if_pos c.utf8Size_pos]; rfl
  | cons c a ih =>
    rw [List.cons_append, positionFrom, byteLength_cons, if_neg (by omega),
      Nat.add_sub_cancel_left, ih, List.foldl_cons]

theorem position_append (a b : Text) :
    position (a ++ b) a.byteLength = a.foldl advance ⟨0, 0⟩ := positionFrom_append ..

/-- Within a line, only the column moves. -/
theorem foldl_advance_line {line : Text} (h : ∀ c ∈ line, c ≠ '\n') (p : Position) :
    line.foldl advance p = ⟨p.line, p.character + line.unitLength⟩ := by
  induction line generalizing p with
  | nil => rfl
  | cons c line ih =>
    have hc := h c List.mem_cons_self
    rw [List.foldl_cons, ih fun d hd => h d (List.mem_cons_of_mem _ hd)]
    simp [advance, hc, unitLength, Nat.add_assoc]

/-- Induction along the line feeds. -/
@[elab_as_elim]
theorem lines_induction {motive : Text → Prop} (text : Text)
    (last : ∀ line : Text, (∀ c ∈ line, c ≠ '\n') → motive line)
    (feed : ∀ line rest : Text, (∀ c ∈ line, c ≠ '\n') → motive rest →
      motive (line ++ '\n' :: rest)) : motive text := by
  -- The characters read since the last line feed stand before those to come.
  suffices h : ∀ line : Text, (∀ c ∈ line, c ≠ '\n') → motive (line ++ text) from h [] (by simp)
  induction text with
  | nil => intro line hl; rw [List.append_nil]; exact last line hl
  | cons c text ih =>
    intro line hl
    by_cases hc : c = '\n'
    · rw [hc]
      exact feed line text hl (ih [] (by simp))
    · have h := ih (line ++ [c]) fun d hd => by
        rcases List.mem_append.1 hd with hd | hd
        · exact hl d hd
        · rw [List.mem_singleton.1 hd]; exact hc
      simpa using h

/-! ## The line of a position -/

/-- The first line runs to the first line feed. -/
theorem splitFrom_newline {line : Text} (h : ∀ c ∈ line, c ≠ '\n') (start : Nat) (b : Text) :
    ∃ rest, Fragment.splitFrom '\n' start (line ++ b) =
      ⟨start, line ++ b.takeWhile (· != '\n')⟩ :: rest := by
  have hline : ∀ c ∈ line ++ b.takeWhile (· != '\n'), c ≠ '\n' := by
    intro c hc
    rcases List.mem_append.1 hc with hc | hc
    · exact h c hc
    · simpa using List.all_eq_true.1 List.all_takeWhile c hc
  have hb : line ++ b = line ++ b.takeWhile (· != '\n') ++ b.dropWhile (· != '\n') := by
    rw [List.append_assoc, List.takeWhile_append_dropWhile]
  rw [hb]
  cases hd : b.dropWhile (· != '\n') with
  | nil => exact ⟨[], by rw [List.append_nil, Fragment.splitFrom_single hline]⟩
  | cons c rest =>
    have hc : c = '\n' := by
      have := List.head?_dropWhile_not (· != '\n') b
      rw [hd] at this
      simpa using this
    rw [hc, Fragment.splitFrom_sep hline]
    exact ⟨_, rfl⟩

/-- **The line of a position:** `line` is what stands before the offset in it. -/
theorem lineAt_position (a b : Text) (start n : Nat) :
    ∃ before line, a = before ++ line ∧
      n ≤ (a.foldl advance ⟨n, 0⟩).line ∧
      (a.foldl advance ⟨n, 0⟩).character = line.unitLength ∧
      (Fragment.splitFrom '\n' start (a ++ b))[(a.foldl advance ⟨n, 0⟩).line - n]? =
        some ⟨start + before.byteLength, line ++ b.takeWhile (· != '\n')⟩ := by
  induction a using lines_induction generalizing start n with
  | last line h =>
    obtain ⟨rest, hrest⟩ := splitFrom_newline h start b
    refine ⟨[], line, rfl, ?_⟩
    rw [foldl_advance_line h, hrest]
    simp
  | feed line rest h ih =>
    obtain ⟨before, last, rfl, hle, hcolumn, hline⟩ :=
      ih (start + line.byteLength + '\n'.utf8Size) (n + 1)
    refine ⟨line ++ '\n' :: before, last, by simp, ?_⟩
    -- The line feed leads to the start of the next line.
    have hfold : (line ++ '\n' :: (before ++ last)).foldl advance ⟨n, 0⟩ =
        (before ++ last).foldl advance ⟨n + 1, 0⟩ := by
      rw [List.foldl_append, foldl_advance_line h]
      rfl
    have hindex : ((before ++ last).foldl advance ⟨n + 1, 0⟩).line - n =
        ((before ++ last).foldl advance ⟨n + 1, 0⟩).line - (n + 1) + 1 := by omega
    rw [hfold, List.append_assoc, List.cons_append, Fragment.splitFrom_sep h, hindex,
      List.getElem?_cons_succ, hline]
    refine ⟨by omega, hcolumn, ?_⟩
    simp [Nat.add_assoc]

/-! ## There and back -/

theorem units_pos (c : Char) : 0 < units c := by
  unfold units
  split <;> omega

/-- The bytes up to a column are those of the characters before it. -/
theorem columnOffset_append (line rest : Text) :
    columnOffset line.unitLength (line ++ rest) = line.byteLength := by
  induction line with
  | nil => cases rest <;> rfl
  | cons c line ih =>
    have hc := units_pos c
    obtain ⟨k, hk⟩ : ∃ k, units c + unitLength line = k + 1 :=
      ⟨units c + unitLength line - 1, by omega⟩
    have hrest : k + 1 - units c = unitLength line := by omega
    rw [List.cons_append, unitLength, hk, columnOffset, hrest, ih]
    rfl

/-- Between `a` and `b` a line ends, and the carriage return before its end is the last
    character of `a`. -/
def BehindReturn (a b : Text) : Prop := a.getLast? = some '\r' ∧ ∀ c ∈ b.head?, c = '\n'

/-- What stands before an offset in its line is left when the carriage return goes. -/
theorem withoutReturn_append {before line b : Text} (h : ¬ BehindReturn (before ++ line) b)
    (start : Nat) : ∃ rest,
      withoutReturn ⟨start, line ++ b.takeWhile (· != '\n')⟩ = ⟨start, line ++ rest⟩ := by
  unfold withoutReturn
  split
  · next hlast =>
    cases hb : b.takeWhile (· != '\n') with
    | cons c cs => exact ⟨(c :: cs).dropLast, by simp [List.dropLast_append_of_ne_nil]⟩
    | nil =>
      -- The line ends with `line`, and so does the text before the offset.
      rw [hb, List.append_nil] at hlast
      refine absurd ⟨?_, fun c hc => ?_⟩ h
      · rw [List.getLast?_append, hlast]
        rfl
      · obtain ⟨rest, rfl⟩ := List.head?_eq_some_iff.1 hc
        simpa [List.takeWhile_cons] using hb
  · exact ⟨_, rfl⟩

/-- **There and back:** the position of an offset leads back to it, unless the offset lies
    behind a carriage return that ends its line. -/
theorem offset?_position {a b : Text} (h : ¬ BehindReturn a b) :
    offset? (a ++ b) (position (a ++ b) a.byteLength) = some a.byteLength := by
  obtain ⟨before, line, rfl, -, hcolumn, hline⟩ := lineAt_position a b 0 0
  obtain ⟨rest, hrest⟩ := withoutReturn_append h (0 + before.byteLength)
  have hline : line? (before ++ line ++ b) (position (before ++ line ++ b)
      (before ++ line).byteLength).line = some ⟨0 + before.byteLength, line ++ rest⟩ := by
    rw [position_append, line?, lines, ← hrest]
    exact congrArg (Option.map withoutReturn) hline
  rw [offset?, hline, Option.map_some, position_append, hcolumn, columnOffset_append]
  simp

/-! ## Size -/

theorem units_le_utf8Size (c : Char) : units c ≤ c.utf8Size := by
  have hpos := c.utf8Size_pos
  unfold units
  split
  · omega
  · next h =>
    have hne : c.utf8Size ≠ 1 := by
      rw [Ne, Char.utf8Size_eq_one_iff, UInt32.le_iff_toNat_le]
      intro hle
      have : c.toNat ≤ 127 := hle
      omega
    omega

theorem positionFrom_le (p : Position) (text : Text) (offset : Nat) :
    (positionFrom p text offset).line ≤ p.line + text.byteLength ∧
      (positionFrom p text offset).character ≤ p.character + text.byteLength := by
  induction text generalizing p offset with
  | nil => simp [positionFrom]
  | cons c text ih =>
    have hc := c.utf8Size_pos
    have hu := units_le_utf8Size c
    rw [positionFrom, byteLength_cons]
    split
    · omega
    · have h := ih (advance p c) (offset - c.utf8Size)
      have hadvance : (advance p c).line ≤ p.line + 1 ∧
          (advance p c).character ≤ p.character + c.utf8Size := by
        unfold advance
        split
        · exact ⟨Nat.le_refl _, Nat.zero_le _⟩
        · exact ⟨Nat.le_succ _, Nat.add_le_add_left hu _⟩
      omega

/-- Positions in a text of less than 2^32 bytes fit in 32 bits. -/
theorem position_fits {text : Text} (h : text.byteLength < UInt32.size) (offset : Nat) :
    (position text offset).Fits := by
  have hle := positionFrom_le ⟨0, 0⟩ text offset
  simp only [Nat.zero_add] at hle
  exact ⟨Nat.lt_of_le_of_lt hle.1 h, Nat.lt_of_le_of_lt hle.2 h⟩

theorem range_fits {text : Text} (h : text.byteLength < UInt32.size) (span : Span) :
    (range text span).start.Fits ∧ (range text span).stop.Fits :=
  ⟨position_fits h _, position_fits h _⟩

end Text

end StyleServer
