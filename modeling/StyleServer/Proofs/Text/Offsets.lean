/-
  The offsets of positions.

  * `Text.columnsFrom`: the boundaries of a line at or behind a column.
  * `columnOffset_spec`, `LineAt.offset?_least`: the offset of a position is the first of them,
    or the end of the line without any.
  * `LineAt.offset?_mono`, `LineAt.stop_le_start`: offsets follow the order of positions, within
    a line and from line to line.
  * `exists_wide`: a character of two UTF-16 units lies inside its line.
  * `Text.OffsetsExact`, `offsets_exact`: all of this about one text.
-/
import Mathlib.Data.Set.Basic
import StyleServer.Proofs.Text.Positions

namespace StyleServer

namespace Text

/-! ## Columns -/

/-- The boundaries of a line at or behind a column. -/
def columnsFrom (text : Text) (line : Fragment) (column : Nat) : Set Nat :=
  {o | text.isBoundary o = true ∧ line.span.touches o = true ∧
    column ≤ (text.position o).character}

/-- The way to a column ends behind the first characters that reach it, or behind all. -/
theorem columnOffset_spec (column : Nat) (line : Text) :
    ∃ u v, line = u ++ v ∧ columnOffset column line = u.byteLength ∧
      (column ≤ u.unitLength ∨ v = [] ∧ line.unitLength < column) ∧
      ∀ u' v', line = u' ++ v' → column ≤ u'.unitLength → u.byteLength ≤ u'.byteLength := by
  induction line generalizing column with
  | nil =>
    refine ⟨[], [], rfl, by cases column <;> rfl, ?_, by simp⟩
    rcases Nat.eq_zero_or_pos column with h | h
    · exact Or.inl (Nat.le_of_eq h)
    · exact Or.inr ⟨rfl, h⟩
  | cons c line ih =>
    cases column with
    | zero => exact ⟨[], c :: line, rfl, rfl, Or.inl (Nat.zero_le _), by simp⟩
    | succ k =>
      obtain ⟨u, v, rfl, hoffset, hreach, hleast⟩ := ih (k + 1 - units c)
      refine ⟨c :: u, v, rfl, by rw [columnOffset, hoffset]; rfl, ?_, ?_⟩
      · rw [unitLength, unitLength]
        rcases hreach with h | ⟨rfl, h⟩
        · exact Or.inl (by omega)
        · exact Or.inr ⟨rfl, by omega⟩
      · intro u' v' hsplit hcolumn
        cases u' with
        | nil => exact absurd hcolumn (Nat.not_succ_le_zero k)
        | cons d u' =>
          obtain ⟨rfl, htail⟩ := List.cons.inj hsplit
          rw [unitLength] at hcolumn
          have := hleast u' v' htail (by omega)
          rw [byteLength_cons, byteLength_cons]
          omega

theorem columnOffset_zero (line : Text) : columnOffset 0 line = 0 := by cases line <;> rfl

/-- A column behind some characters is counted from their end. -/
theorem columnOffset_add (u rest : Text) (column : Nat) :
    columnOffset (u.unitLength + column) (u ++ rest) = u.byteLength + columnOffset column rest := by
  induction u with
  | nil => simp [unitLength]
  | cons c u ih =>
    have hc := units_pos c
    obtain ⟨k, hk⟩ : ∃ k, units c + unitLength u + column = k + 1 :=
      ⟨units c + unitLength u + column - 1, by omega⟩
    have hrest : k + 1 - units c = unitLength u + column := by omega
    rw [List.cons_append, unitLength, hk, columnOffset, hrest, ih, byteLength_cons, Nat.add_assoc]

theorem columnOffset_mono {column column' : Nat} (h : column ≤ column') (line : Text) :
    columnOffset column line ≤ columnOffset column' line := by
  induction line generalizing column column' with
  | nil => cases column <;> cases column' <;> exact Nat.le_refl _
  | cons c line ih =>
    cases column with
    | zero => rw [columnOffset_zero]; exact Nat.zero_le _
    | succ k =>
      obtain ⟨k', rfl⟩ : ∃ k', column' = k' + 1 := ⟨column' - 1, by omega⟩
      rw [columnOffset, columnOffset]
      exact Nat.add_le_add_left (ih (by omega)) _

theorem columnOffset_le (column : Nat) (line : Text) :
    columnOffset column line ≤ line.byteLength := by
  obtain ⟨u, v, rfl, hoffset, -, -⟩ := columnOffset_spec column line
  rw [hoffset, byteLength_append]
  omega

/-! ## Offsets in a line -/

namespace LineAt

variable {text before after : Text} {index : Nat} {line : Fragment}

/-- **The offset of a position** is the first boundary of its line that reaches the column, or
    the end of the line when none does. -/
theorem offset?_least (h : LineAt text index line before after) (column : Nat) :
    ∃ o, text.offset? ⟨index, column⟩ = some o ∧
      (IsLeast (text.columnsFrom line column) o ∨
        text.columnsFrom line column = ∅ ∧ o = line.stop) := by
  obtain ⟨u, v, hline, hoffset, hreach, hleast⟩ := columnOffset_spec column line.chars
  refine ⟨line.start + u.byteLength, by rw [h.offset?_eq, hoffset], ?_⟩
  rcases hreach with hreach | ⟨rfl, hshort⟩
  · obtain ⟨hboundary, htouches⟩ := h.isBoundary_cut hline
    refine Or.inl ⟨⟨hboundary, htouches, by rw [h.position_eq hline]; exact hreach⟩, ?_⟩
    rintro o ⟨ho, hspan, hcolumn⟩
    obtain ⟨u', v', hline', rfl⟩ := h.exists_cut ho hspan
    rw [h.position_eq hline'] at hcolumn
    exact Nat.add_le_add_left (hleast u' v' hline' hcolumn) _
  · refine Or.inr ⟨Set.eq_empty_iff_forall_notMem.2 ?_, ?_⟩
    · rintro o ⟨ho, hspan, hcolumn⟩
      obtain ⟨u', v', hline', rfl⟩ := h.exists_cut ho hspan
      rw [h.position_eq hline'] at hcolumn
      have hcolumn : column ≤ unitLength u' := hcolumn
      rw [hline', unitLength_append] at hshort
      omega
    · rw [Fragment.stop, hline, List.append_nil]

theorem offset?_mono (h : LineAt text index line before after) {column column' : Nat}
    (hle : column ≤ column') :
    ∃ o o', text.offset? ⟨index, column⟩ = some o ∧ text.offset? ⟨index, column'⟩ = some o' ∧
      o ≤ o' :=
  ⟨_, _, h.offset?_eq column, h.offset?_eq column',
    Nat.add_le_add_left (columnOffset_mono hle _) _⟩

/-- A line ends before the next one begins. -/
theorem stop_le_start (h : LineAt text index line before after) {index' : Nat} {line' : Fragment}
    {before' after' : Text} (h' : LineAt text index' line' before' after') (hlt : index < index') :
    line.stop ≤ line'.start := by
  rw [Fragment.stop, h.start_eq, h'.start_eq, ← byteLength_append]
  refine Nat.le_of_not_lt fun hlt' => ?_
  -- The later line would begin inside the earlier one, behind a line feed.
  have htext : before' ++ (line'.chars ++ after') = before ++ line.chars ++ after := by
    rw [← h'.text_eq, h.text_eq, List.append_assoc]
  obtain ⟨m, hm, -⟩ := append_split htext (Nat.le_of_lt hlt')
  have hcount := congrArg (List.count '\n') hm
  rw [List.count_append, List.count_append, count_newline_eq_zero h.inside, h.index_eq,
    h'.index_eq] at hcount
  omega

/-- The position of a boundary of the line leads back to it. -/
theorem offset?_position (h : LineAt text index line before after) {o : Nat}
    (ho : text.isBoundary o = true) (hspan : line.span.touches o = true) :
    text.offset? (text.position o) = some o := by
  obtain ⟨u, v, hline, rfl⟩ := h.exists_cut ho hspan
  rw [h.position_eq hline, h.offset?_eq, hline, columnOffset_append]

/-- A terminator holds no character but line feeds and carriage returns before the end of the
    line. -/
theorem mem_of_ends (h : LineAt text index line before after) {u rest : Text} {c : Char}
    (hafter : after = u ++ c :: rest) (hu : ∀ d ∈ u, d ≠ '\n') : c = '\n' ∨ c = '\r' := by
  have hhead : ∀ {tail : Text}, (∀ d ∈ tail.head?, d = '\n') → ∀ {u : Text},
      (∀ d ∈ u, d ≠ '\n') → tail = u ++ c :: rest → c = '\n' := by
    intro tail htail u hu heq
    cases u with
    | nil => exact htail c (by rw [heq]; rfl)
    | cons d u => exact absurd (htail d (by rw [heq]; rfl)) (hu d List.mem_cons_self)
  cases hends : h.ends with
  | feed _ hfeed => exact Or.inl (hhead hfeed hu hafter)
  | carriage hfeed =>
    cases u with
    | nil => exact Or.inr (List.cons.inj hafter).1.symm
    | cons d u =>
      refine Or.inl (hhead hfeed (fun e he => hu e (List.mem_cons_of_mem _ he)) ?_)
      exact (List.cons.inj hafter).2

end LineAt

/-- A character of two UTF-16 units lies inside its line. -/
theorem exists_wide {a b : Text} {c : Char} (hc : units c = 2) :
    ∃ line before after u v, LineAt (a ++ c :: b) (a.count '\n') line before after ∧
      a = before ++ u ∧ line.chars = u ++ c :: v := by
  obtain ⟨line, before, after, u, h, ha, hu, hrest⟩ := exists_lineAt a (c :: b)
  have hwide : ¬ (c = '\n' ∨ c = '\r') := by
    rintro (rfl | rfl) <;> exact absurd hc (by decide)
  rcases List.append_eq_append_iff.1 hrest with ⟨m, rfl, hm⟩ | ⟨m, hline, hm⟩
  · refine absurd (h.mem_of_ends hm fun d hd => hu d (List.mem_append_right _ hd)) hwide
  · cases m with
    | nil => exact absurd (h.mem_of_ends (u := []) hm.symm (by simp)) hwide
    | cons d m =>
      obtain ⟨rfl, -⟩ := List.cons.inj hm
      exact ⟨line, before, after, u, m, h, ha, hline⟩

/-! ## All offsets of a text -/

/-- What the offsets of a text say of its positions. -/
structure OffsetsExact (text : Text) : Prop where
  none_iff : ∀ p, text.offset? p = none ↔ text.lineCount ≤ p.line
  /-- The first boundary of the line that reaches the column, or the end of the line. -/
  least : ∀ p line, text.line? p.line = some line → ∃ o, text.offset? p = some o ∧
    (IsLeast (text.columnsFrom line p.character) o ∨
      text.columnsFrom line p.character = ∅ ∧ o = line.stop)
  monotone : ∀ p q o', p.le q = true → text.offset? q = some o' →
    ∃ o, text.offset? p = some o ∧ o ≤ o'
  /-- The position of a boundary in a line leads back to it, and so to itself. -/
  round_trip : ∀ p index line o, text.line? index = some line → text.isBoundary o = true →
    line.span.touches o = true → text.position o = p →
    text.offset? p = some o ∧ (text.offset? p).map text.position = some p
  /-- Between the two units of a character, the end of the character is meant. -/
  between : ∀ (a : Text) c (b : Text) p, text = a ++ c :: b → units c = 2 →
    p = ⟨(text.position a.byteLength).line, (text.position a.byteLength).character + 1⟩ →
    text.offset? p = some (byteLength (a ++ [c]))
  /-- A column past the end of a line leads to the end, before the line's terminator. -/
  clamped : ∀ p line (before after : Text), LineAt text p.line line before after →
    line.chars.unitLength ≤ p.character →
    text.offset? p = some (before ++ line.chars).byteLength

theorem offset?_eq_none_iff (text : Text) (p : Position) :
    text.offset? p = none ↔ text.lineCount ≤ p.line := by
  rw [offset?, Option.map_eq_none_iff, line?, Option.map_eq_none_iff, List.getElem?_eq_none_iff]
  rfl

/-- **Positions and their offsets.** -/
theorem offsets_exact (text : Text) : text.OffsetsExact where
  none_iff := offset?_eq_none_iff text
  least := by
    intro p line hline
    obtain ⟨before, after, h⟩ := line?_eq_some_iff.1 hline
    exact h.offset?_least p.character
  monotone := by
    intro p q o' hle ho'
    have hq : q.line < text.lineCount := by
      refine Nat.lt_of_not_le fun h => ?_
      rw [(offset?_eq_none_iff text q).2 h] at ho'
      exact absurd ho' (by simp)
    obtain ⟨line', before', after', -, h'⟩ := exists_line hq
    simp only [Position.le, Bool.or_eq_true, Bool.and_eq_true, beq_iff_eq, decide_eq_true_eq] at hle
    rcases hle with hlt | ⟨hline, hcolumn⟩
    · obtain ⟨line, before, after, -, h⟩ := exists_line (Nat.lt_trans hlt hq)
      refine ⟨_, h.offset?_eq p.character, ?_⟩
      obtain rfl := Option.some.inj ((h'.offset?_eq q.character).symm.trans ho')
      have hstop := h.stop_le_start h' hlt
      have hcolumn := columnOffset_le p.character line.chars
      rw [Fragment.stop] at hstop
      omega
    · rw [← hline] at h'
      obtain ⟨o, o'', ho, ho'', hle⟩ := h'.offset?_mono hcolumn
      have hq : text.offset? q = some o'' := by
        rw [← ho'', hline]
      obtain rfl := Option.some.inj (hq.symm.trans ho')
      exact ⟨o, ho, hle⟩
  round_trip := by
    rintro p index line o hline ho hspan rfl
    obtain ⟨before, after, h⟩ := line?_eq_some_iff.1 hline
    have hback := h.offset?_position ho hspan
    exact ⟨hback, by rw [hback]; rfl⟩
  between := by
    rintro a c b p rfl hc rfl
    obtain ⟨line, before, after, u, v, h, rfl, hline⟩ := exists_wide (a := a) (b := b) hc
    have hu : line.start + u.byteLength = (before ++ u).byteLength := by
      rw [byteLength_append, h.start_eq]
    rw [← hu, h.position_eq hline, h.offset?_eq, hline, columnOffset_add, columnOffset, hc,
      columnOffset_zero, byteLength_append, ← hu]
    simp [Nat.add_assoc]
  clamped := by
    intro p line before after h hcolumn
    rw [h.offset?_eq p.character, columnOffset_of_le hcolumn, h.start_eq, byteLength_append]

end Text

end StyleServer
