/-
  The positions of offsets.

  * `foldl_advance`, `position_eq`: the line of an offset counts the line feeds before it, and
    the column measures what stands between the last of them and the offset.
  * `position_floor`: an offset inside a character goes to the boundary below it, one past the
    end to the end.
  * `Position.Before`, `before_foldl_advance`: a character moves a position forward.
  * `position_before`, `position_mono`: the order of offsets is that of their positions.
  * `offset?_position_min`: from a boundary to its position and back, the way ends at the
    boundary or at the end of its line.
  * `Text.PositionsExact`, `positions_exact`: all of this about one text.
-/
import Mathlib.Order.Bounds.Defs
import StyleServer.Proofs.Text.Lines

namespace StyleServer

/-- The line comes first, then the column. -/
def Position.Before (p q : Position) : Prop :=
  p.line < q.line ∨ p.line = q.line ∧ p.character < q.character

theorem Position.Before.trans {p q r : Position} (h : p.Before q) (h' : q.Before r) :
    p.Before r := by
  unfold Before at *
  omega

theorem Position.le_iff {p q : Position} : p.le q = true ↔ ¬ q.Before p := by
  simp only [le, Before, Bool.or_eq_true, Bool.and_eq_true, beq_iff_eq, decide_eq_true_eq]
  omega

theorem Position.eq_iff {p q : Position} :
    p = q ↔ p.line = q.line ∧ p.character = q.character := by
  cases p
  cases q
  exact Position.mk.injEq .. ▸ Iff.rfl

namespace Text

/-! ## Line and column -/

/-- The characters behind the last line feed. -/
def lastLine (text : Text) : Text := (text.reverse.takeWhile (· != '\n')).reverse

/-- What stands in one line goes on the last one. -/
theorem lastLine_append_line (before : Text) {line : Text} (h : ∀ c ∈ line, c ≠ '\n') :
    lastLine (before ++ line) = lastLine before ++ line := by
  have hall : ∀ c ∈ line.reverse, (c != '\n') = true := by
    intro c hc
    simpa using h c (List.mem_reverse.1 hc)
  rw [lastLine, List.reverse_append, List.takeWhile_append_of_pos hall, List.reverse_append,
    List.reverse_reverse, lastLine]

theorem lastLine_of_line {line : Text} (h : ∀ c ∈ line, c ≠ '\n') : lastLine line = line :=
  lastLine_append_line [] h

/-- The last line ends as the text does. -/
theorem getLast?_lastLine {text : Text} : ∀ c ∈ text.lastLine.getLast?, c ∈ text.getLast? := by
  rw [lastLine, List.getLast?_reverse, ← List.head?_reverse]
  cases text.reverse with
  | nil => simp
  | cons d ds =>
    rw [List.takeWhile_cons]
    split
    · exact fun c hc => hc
    · simp

theorem lastLine_feed (line rest : Text) : lastLine (line ++ '\n' :: rest) = lastLine rest := by
  unfold lastLine
  rw [List.reverse_append, List.reverse_cons, List.append_assoc, List.takeWhile_append]
  split
  · next hlength =>
    have hself : rest.reverse.takeWhile (· != '\n') = rest.reverse :=
      (List.takeWhile_prefix _).eq_of_length hlength
    simp [hself]
  · rfl

/-- Behind a line feed, or at the start of the text, the last line is what follows. -/
theorem lastLine_append {before line : Text} (hb : ∀ c ∈ before.getLast?, c = '\n')
    (hl : ∀ c ∈ line, c ≠ '\n') : lastLine (before ++ line) = line := by
  rcases List.eq_nil_or_concat before with rfl | ⟨init, c, rfl⟩
  · exact lastLine_of_line hl
  · obtain rfl := hb c (by simp)
    rw [List.concat_eq_append, List.append_assoc, List.singleton_append, lastLine_feed,
      lastLine_of_line hl]

theorem count_newline_eq_zero {line : Text} (h : ∀ c ∈ line, c ≠ '\n') : line.count '\n' = 0 :=
  List.count_eq_zero.2 fun hmem => h _ hmem rfl

/-- **Line feeds are counted, and the column starts again behind each of them.** -/
theorem foldl_advance (text : Text) (n : Nat) :
    text.foldl advance ⟨n, 0⟩ = ⟨n + text.count '\n', text.lastLine.unitLength⟩ := by
  induction text using lines_induction generalizing n with
  | last line h =>
    rw [foldl_advance_line h, lastLine_of_line h, count_newline_eq_zero h]
    simp
  | feed line rest h ih =>
    have hfeed : (line ++ '\n' :: rest).foldl advance ⟨n, 0⟩ = rest.foldl advance ⟨n + 1, 0⟩ := by
      rw [List.foldl_append, foldl_advance_line h]
      rfl
    have hcount : (line ++ '\n' :: rest).count '\n' = 1 + rest.count '\n' := by
      rw [List.count_append, count_newline_eq_zero h, List.count_cons_self]
      omega
    rw [hfeed, ih, lastLine_feed, hcount, Nat.add_assoc]

theorem position_eq (a b : Text) :
    position (a ++ b) a.byteLength = ⟨a.count '\n', a.lastLine.unitLength⟩ := by
  rw [position_append, foldl_advance, Nat.zero_add]

theorem lineOf_append (a b : Text) : lineOf (a ++ b) a.byteLength = a.count '\n' := by
  induction a with
  | nil => cases b <;> rfl
  | cons c a ih =>
    have hc := c.utf8Size_pos
    have hoffset : c.utf8Size + byteLength a ≠ 0 := by omega
    rw [List.cons_append, byteLength_cons, lineOf, if_neg hoffset, Nat.add_sub_cancel_left, ih,
      List.count_cons]
    by_cases hn : c = '\n'
    · simp only [hn, if_true, beq_self_eq_true]
      omega
    · simp [hn]

/-! ## Offsets that are no boundaries -/

/-- The way to a position stops before the first character that ends behind the offset. -/
theorem positionFrom_floor (p : Position) (text : Text) (offset : Nat) :
    ∃ a b, text = a ++ b ∧ a.byteLength ≤ offset ∧
      (∀ c ∈ b.head?, offset < a.byteLength + c.utf8Size) ∧
      positionFrom p text offset = a.foldl advance p := by
  induction text generalizing p offset with
  | nil => exact ⟨[], [], rfl, Nat.zero_le _, by simp, rfl⟩
  | cons c text ih =>
    rw [positionFrom]
    split
    · next hlt =>
      refine ⟨[], c :: text, rfl, Nat.zero_le _, ?_, rfl⟩
      intro d hd
      obtain rfl := Option.some.inj hd
      rw [byteLength_nil, Nat.zero_add]
      exact hlt
    · next hle =>
      obtain ⟨a, b, rfl, hsize, hhead, hp⟩ := ih (advance p c) (offset - c.utf8Size)
      refine ⟨c :: a, b, rfl, ?_, ?_, hp⟩
      · rw [byteLength_cons]
        omega
      · intro d hd
        have := hhead d hd
        rw [byteLength_cons]
        omega

/-- **The nearest boundary below:** an offset has its position. -/
theorem position_floor (text : Text) (offset : Nat) :
    ∃ boundary, IsGreatest {o | text.isBoundary o = true ∧ o ≤ offset} boundary ∧
      text.position offset = text.position boundary := by
  obtain ⟨a, b, rfl, hsize, hhead, hp⟩ := positionFrom_floor ⟨0, 0⟩ text offset
  refine ⟨a.byteLength, ⟨⟨isBoundary_byteLength a b, hsize⟩, ?_⟩, ?_⟩
  · rintro o ⟨ho, hle⟩
    obtain ⟨a', b', htext, rfl⟩ := isBoundary_iff.1 ho
    refine Nat.le_of_not_lt fun hlt => ?_
    -- A boundary further back would lie behind the character that covers the offset.
    obtain ⟨m, rfl, rfl⟩ := append_split htext (by omega)
    cases m with
    | nil => simp at hlt
    | cons c m =>
      have := hhead c rfl
      simp only [byteLength_append, byteLength_cons] at hle
      omega
  · rw [position_append]
    exact hp

/-- An offset past the end has the position of the end. -/
theorem position_of_le {text : Text} {offset : Nat} (h : text.byteLength ≤ offset) :
    text.position offset = text.position text.byteLength := by
  obtain ⟨a, b, rfl, hsize, hhead, hp⟩ := positionFrom_floor ⟨0, 0⟩ text offset
  have hb : b = [] := by
    cases b with
    | nil => rfl
    | cons c b =>
      have := hhead c rfl
      simp only [byteLength_append, byteLength_cons] at h
      omega
  subst hb
  have hend := position_append a []
  rw [List.append_nil] at hp hend ⊢
  rw [hend]
  exact hp

/-! ## Order -/

theorem before_advance (p : Position) (c : Char) : p.Before (advance p c) := by
  have hc := units_pos c
  unfold advance
  split
  · exact Or.inl (Nat.lt_succ_self _)
  · exact Or.inr ⟨rfl, Nat.lt_add_of_pos_right hc⟩

theorem before_foldl_advance {chars : Text} (h : chars ≠ []) (p : Position) :
    p.Before (chars.foldl advance p) := by
  induction chars generalizing p with
  | nil => exact absurd rfl h
  | cons c chars ih =>
    rw [List.foldl_cons]
    by_cases hne : chars = []
    · rw [hne]
      exact before_advance p c
    · exact (before_advance p c).trans (ih hne _)

/-- A boundary further back has a position further back. -/
theorem position_before {text : Text} {o o' : Nat} (ho : text.isBoundary o = true)
    (ho' : text.isBoundary o' = true) (hlt : o < o') :
    (text.position o).Before (text.position o') := by
  obtain ⟨a, b, rfl, rfl⟩ := isBoundary_iff.1 ho
  obtain ⟨a', b', htext, rfl⟩ := isBoundary_iff.1 ho'
  obtain ⟨m, rfl, rfl⟩ := append_split htext (Nat.le_of_lt hlt)
  have hm : m ≠ [] := by
    rintro rfl
    simp at hlt
  rw [position_append, ← List.append_assoc, position_append, List.foldl_append]
  exact before_foldl_advance hm _

/-- A position further back does not come from an offset further ahead. -/
theorem position_mono (text : Text) {o o' : Nat} (h : o ≤ o') :
    ¬ (text.position o').Before (text.position o) := by
  obtain ⟨b, ⟨⟨hb, hle⟩, -⟩, hpos⟩ := text.position_floor o
  obtain ⟨b', ⟨⟨hb', -⟩, hgreatest⟩, hpos'⟩ := text.position_floor o'
  have hbb : b ≤ b' := hgreatest ⟨hb, Nat.le_trans hle h⟩
  rw [hpos, hpos']
  rcases Nat.eq_or_lt_of_le hbb with rfl | hlt
  · unfold Position.Before
    omega
  · have := position_before hb hb' hlt
    unfold Position.Before at *
    omega

theorem position_le (text : Text) {o o' : Nat} (h : o ≤ o') :
    (text.position o).le (text.position o') = true :=
  Position.le_iff.2 (text.position_mono h)

/-! ## Lines -/

/-- What follows a line: a line feed or nothing, or a carriage return before these. -/
inductive EndsLine (line : Text) : Text → Prop where
  | feed {after : Text} (hline : line.getLast? ≠ some '\r') (h : ∀ c ∈ after.head?, c = '\n') :
      EndsLine line after
  | carriage {after : Text} (h : ∀ c ∈ after.head?, c = '\n') : EndsLine line ('\r' :: after)

/-- The line of an index stands between `before` and `after`. -/
structure LineAt (text : Text) (index : Nat) (line : Fragment) (before after : Text) : Prop where
  text_eq : text = before ++ (line.chars ++ after)
  start_eq : line.start = before.byteLength
  index_eq : before.count '\n' = index
  begins : ∀ c ∈ before.getLast?, c = '\n'
  inside : ∀ c ∈ line.chars, c ≠ '\n'
  ends : EndsLine line.chars after

/-- Where the parts between line feeds stand. -/
theorem getElem?_splitFrom {text : Text} {start index : Nat} {f : Fragment}
    (h : (Fragment.splitFrom '\n' start text)[index]? = some f) :
    ∃ before after, text = before ++ (f.chars ++ after) ∧ f.start = start + before.byteLength ∧
      before.count '\n' = index ∧ (∀ c ∈ before.getLast?, c = '\n') ∧
      (∀ c ∈ f.chars, c ≠ '\n') ∧ ∀ c ∈ after.head?, c = '\n' := by
  induction text using lines_induction generalizing start index with
  | last line hline =>
    rw [Fragment.splitFrom_single hline, List.getElem?_singleton] at h
    split at h
    · next hi =>
      obtain rfl := Option.some.inj h
      exact ⟨[], [], by simp, rfl, hi.symm, by simp, hline, by simp⟩
    · simp at h
  | feed line rest hline ih =>
    rw [Fragment.splitFrom_sep hline] at h
    cases index with
    | zero =>
      obtain rfl := Option.some.inj h
      exact ⟨[], '\n' :: rest, rfl, rfl, rfl, by simp, hline, by simp⟩
    | succ index =>
      obtain ⟨before, after, rfl, hstart, hcount, hbegins, hinside, hends⟩ := ih h
      refine ⟨line ++ '\n' :: before, after, by simp, ?_, ?_, ?_, hinside, hends⟩
      · simp only [hstart, byteLength_append, byteLength_cons]
        omega
      · rw [List.count_append, count_newline_eq_zero hline, List.count_cons_self, hcount]
        omega
      · intro c hc
        rw [List.getLast?_append, List.getLast?_cons] at hc
        cases hlast : before.getLast? with
        | none => simpa [hlast] using hc.symm
        | some d => exact (by simpa [hlast] using hc.symm : c = d) ▸ hbegins d hlast

/-- Behind a line feed, the next part begins. -/
theorem splitFrom_getElem?_count {before : Text} (h : ∀ c ∈ before.getLast?, c = '\n')
    (start : Nat) (rest : Text) :
    (Fragment.splitFrom '\n' start (before ++ rest))[before.count '\n']? =
      (Fragment.splitFrom '\n' (start + before.byteLength) rest).head? := by
  induction before using lines_induction generalizing start with
  | last line hline =>
    have hnil : line = [] := by
      rcases List.eq_nil_or_concat line with rfl | ⟨init, c, rfl⟩
      · rfl
      · exact absurd (h c (by simp)) (hline c (by simp))
    subst hnil
    simp [List.head?_eq_getElem?]
  | feed line before hline ih =>
    have hbefore : ∀ c ∈ before.getLast?, c = '\n' := by
      intro c hc
      refine h c ?_
      rw [List.getLast?_append, List.getLast?_cons, Option.mem_def.1 hc]
      rfl
    have hcount : (line ++ '\n' :: before).count '\n' = before.count '\n' + 1 := by
      rw [List.count_append, count_newline_eq_zero hline, List.count_cons_self]
      omega
    rw [List.append_assoc, List.cons_append, Fragment.splitFrom_sep hline, hcount,
      List.getElem?_cons_succ, ih hbefore]
    congr 2
    simp only [byteLength_append, byteLength_cons]
    omega

/-- The carriage return at the end of a part does not belong to the line. -/
theorem withoutReturn_endsLine {line after : Text} (h : EndsLine line after) (start : Nat) :
    withoutReturn ⟨start, line ++ after.takeWhile (· != '\n')⟩ = ⟨start, line⟩ := by
  have htake : ∀ {rest : Text}, (∀ c ∈ rest.head?, c = '\n') →
      rest.takeWhile (· != '\n') = [] := by
    intro rest hrest
    cases rest with
    | nil => rfl
    | cons c rest => simp [hrest c rfl]
  cases h with
  | feed hline h =>
    rw [htake h, List.append_nil, withoutReturn, if_neg hline]
  | @carriage rest h =>
    have hreturn : ('\r' :: rest).takeWhile (· != '\n') = ['\r'] := by
      rw [List.takeWhile_cons, htake h]
      rfl
    rw [hreturn, withoutReturn, if_pos (by simp)]
    simp

/-- **Lines are known by what stands around them.** -/
theorem line?_eq_some_iff {text : Text} {index : Nat} {line : Fragment} :
    line? text index = some line ↔ ∃ before after, LineAt text index line before after := by
  constructor
  · intro h
    obtain ⟨f, hf, rfl⟩ := Option.map_eq_some_iff.1 h
    have hsplit : (Fragment.splitFrom '\n' 0 text)[index]? = some f := hf
    obtain ⟨before, after, htext, hstart, hcount, hbegins, hinside, hends⟩ :=
      getElem?_splitFrom hsplit
    rw [Nat.zero_add] at hstart
    unfold withoutReturn
    split
    · next hreturn =>
      obtain ⟨init, hinit⟩ := List.getLast?_eq_some_iff.1 hreturn
      rw [hinit] at htext hinside
      refine ⟨before, '\r' :: after, ?_, hstart, hcount, hbegins, ?_, .carriage hends⟩
      · simp [htext, hinit]
      · intro c hc
        rw [hinit, List.dropLast_concat] at hc
        exact hinside c (List.mem_append_left _ hc)
    · next hreturn =>
      exact ⟨before, after, htext, hstart, hcount, hbegins, hinside, .feed hreturn hends⟩
  · rintro ⟨before, after, h⟩
    obtain ⟨rest, hrest⟩ := splitFrom_newline h.inside before.byteLength after
    have hpart : (lines text)[index]? =
        some ⟨before.byteLength, line.chars ++ after.takeWhile (· != '\n')⟩ := by
      rw [h.text_eq, ← h.index_eq, lines]
      have := splitFrom_getElem?_count h.begins 0 (line.chars ++ after)
      rw [Nat.zero_add, hrest, List.head?_cons] at this
      exact this
    rw [line?, hpart, Option.map_some, withoutReturn_endsLine h.ends, ← h.start_eq]

theorem lineCount_eq (text : Text) : lineCount text = text.count '\n' + 1 := by
  have hlength : ∀ start, (Fragment.splitFrom '\n' start text).length = text.count '\n' + 1 := by
    induction text using lines_induction with
    | last line h => intro start; rw [Fragment.splitFrom_single h, count_newline_eq_zero h]; rfl
    | feed line rest h ih =>
      intro start
      rw [Fragment.splitFrom_sep h, List.length_cons, ih, List.count_append,
        count_newline_eq_zero h, List.count_cons_self]
      omega
  exact hlength 0

theorem exists_line {text : Text} {index : Nat} (h : index < lineCount text) :
    ∃ line before after, line? text index = some line ∧ LineAt text index line before after := by
  obtain ⟨f, hf⟩ : ∃ f, (lines text)[index]? = some f := ⟨_, List.getElem?_eq_getElem h⟩
  have hline : line? text index = some (withoutReturn f) := by rw [line?, hf]; rfl
  obtain ⟨before, after, hat⟩ := line?_eq_some_iff.1 hline
  exact ⟨_, before, after, hline, hat⟩

namespace LineAt

variable {text before after : Text} {index : Nat} {line : Fragment}

/-- The position of a boundary in a line: the line and the length of what stands before the
    boundary in it. -/
theorem position_eq (h : LineAt text index line before after) {u v : Text}
    (hu : line.chars = u ++ v) :
    text.position (line.start + u.byteLength) = ⟨index, u.unitLength⟩ := by
  have hinside : ∀ c ∈ u, c ≠ '\n' := by
    intro c hc
    exact h.inside c (by rw [hu]; exact List.mem_append_left _ hc)
  have htext : text = before ++ u ++ (v ++ after) := by simp [h.text_eq, hu]
  rw [htext, h.start_eq, ← byteLength_append, Text.position_eq, lastLine_append h.begins hinside,
    List.count_append, count_newline_eq_zero hinside, h.index_eq]
  rfl

/-- The boundaries in the span of a line cut its characters. -/
theorem exists_cut (h : LineAt text index line before after) {o : Nat}
    (ho : text.isBoundary o = true) (hspan : line.span.touches o = true) :
    ∃ u v, line.chars = u ++ v ∧ o = line.start + u.byteLength := by
  obtain ⟨a, b, htext, rfl⟩ := isBoundary_iff.1 ho
  obtain ⟨hstart, hstop⟩ := Span.touches_iff.1 hspan
  rw [h.text_eq] at htext
  obtain ⟨u, rfl, hrest⟩ := append_split htext (by rw [← h.start_eq]; exact hstart)
  have hle : u.byteLength ≤ line.chars.byteLength := by
    simp only [Fragment.span, Fragment.stop, h.start_eq, byteLength_append] at hstop
    omega
  obtain ⟨v, hv, -⟩ := append_split hrest.symm hle
  exact ⟨u, v, hv, by rw [h.start_eq, byteLength_append]⟩

/-- A cut of the characters of a line is a boundary in its span. -/
theorem isBoundary_cut (h : LineAt text index line before after) {u v : Text}
    (hu : line.chars = u ++ v) : text.isBoundary (line.start + u.byteLength) = true ∧
      line.span.touches (line.start + u.byteLength) = true := by
  constructor
  · refine isBoundary_iff.2 ⟨before ++ u, v ++ after, by simp [h.text_eq, hu], ?_⟩
    rw [byteLength_append, h.start_eq]
  · rw [Span.touches_iff, Fragment.span, Fragment.stop, hu, byteLength_append]
    exact ⟨by simp, by simp⟩

theorem offset?_eq (h : LineAt text index line before after) (column : Nat) :
    text.offset? ⟨index, column⟩ = some (line.start + columnOffset column line.chars) := by
  rw [offset?, line?_eq_some_iff.2 ⟨before, after, h⟩]
  rfl

end LineAt

/-! ## There and back -/

/-- A column at or past the end of a line leads to its end. -/
theorem columnOffset_of_le {line : Text} {column : Nat} (h : line.unitLength ≤ column) :
    columnOffset column line = line.byteLength := by
  induction line generalizing column with
  | nil => cases column <;> rfl
  | cons c line ih =>
    have hc := units_pos c
    rw [unitLength] at h
    obtain ⟨k, rfl⟩ : ∃ k, column = k + 1 := ⟨column - 1, by omega⟩
    rw [columnOffset, ih (by omega), byteLength_cons]

theorem unitLength_append (a b : Text) :
    unitLength (a ++ b) = unitLength a + unitLength b := by
  induction a with
  | nil => simp [unitLength]
  | cons c a ih => simp [unitLength, ih, Nat.add_assoc]

/-- The text before a boundary ends with what stands before the boundary in its line. -/
theorem exists_lineAt (a b : Text) :
    ∃ line before after u, LineAt (a ++ b) (a.count '\n') line before after ∧
      a = before ++ u ∧ (∀ c ∈ u, c ≠ '\n') ∧ line.chars ++ after = u ++ b := by
  have hindex : a.count '\n' < lineCount (a ++ b) := by
    rw [lineCount_eq, List.count_append]
    omega
  obtain ⟨line, before, after, -, h⟩ := exists_line hindex
  -- The line begins at or before the boundary: else a line feed would lie between them.
  have hle : before.byteLength ≤ a.byteLength := by
    refine Nat.le_of_not_lt fun hlt => ?_
    obtain ⟨m, rfl, -⟩ := append_split h.text_eq (Nat.le_of_lt hlt)
    have hlast : m.getLast? = some '\n' := by
      rcases List.eq_nil_or_concat m with rfl | ⟨init, c, rfl⟩
      · simp at hlt
      · have hc := h.begins c (by simp)
        simp [hc]
    have hmem : 0 < m.count '\n' := List.count_pos_iff.2 (List.mem_of_getLast? hlast)
    have hcount := h.index_eq
    rw [List.count_append] at hcount
    omega
  obtain ⟨u, rfl, hu⟩ := append_split h.text_eq.symm hle
  refine ⟨line, before, after, u, h, rfl, ?_, hu⟩
  have hcount := h.index_eq
  rw [List.count_append] at hcount
  intro c hc hn
  have := List.count_pos_iff.2 (hn ▸ hc)
  omega

/-- **There and back:** the position of a boundary leads back to it, or to the end of its line
    when the boundary lies behind that end. -/
theorem offset?_position_min (a b : Text) :
    ∃ line before after u, LineAt (a ++ b) (a.count '\n') line before after ∧
      a = before ++ u ∧ line.chars ++ after = u ++ b ∧
      offset? (a ++ b) (position (a ++ b) a.byteLength) = some (min a.byteLength line.stop) := by
  obtain ⟨line, before, after, u, h, ha, hu, hrest⟩ := exists_lineAt a b
  refine ⟨line, before, after, u, h, ha, hrest, ?_⟩
  have hcolumn : a.lastLine = u := by rw [ha, lastLine_append h.begins hu]
  have hsize : a.byteLength = line.start + u.byteLength := by
    rw [ha, byteLength_append, h.start_eq]
  rw [Text.position_eq, hcolumn, h.offset?_eq, Option.some.injEq, hsize, Fragment.stop]
  rcases List.append_eq_append_iff.1 hrest with ⟨m, rfl, -⟩ | ⟨m, hline, -⟩
  · -- The boundary lies at the end of the line or behind it.
    rw [columnOffset_of_le (by rw [unitLength_append]; omega), byteLength_append]
    omega
  · rw [hline, columnOffset_append, byteLength_append]
    omega

/-- A line ends before the carriage return that ends it. -/
theorem LineAt.stop_lt_of_behindReturn {line : Fragment} {a b before after u : Text}
    (h : LineAt (a ++ b) (a.count '\n') line before after) (ha : a = before ++ u)
    (hrest : line.chars ++ after = u ++ b) (hreturn : BehindReturn a b) :
    line.stop < a.byteLength := by
  obtain ⟨hlast, hfeed⟩ := hreturn
  have hu : u.getLast? = some '\r' := by
    rw [ha, List.getLast?_append, Option.or_eq_some_iff] at hlast
    rcases hlast with hlast | ⟨-, hlast⟩
    · exact hlast
    · exact absurd (h.begins _ hlast) (by decide)
  have hne : line.chars ≠ u := by
    intro heq
    have hb : after = b := by
      rw [heq] at hrest
      exact List.append_cancel_left hrest
    have hends := h.ends
    rw [heq, hb] at hends
    cases hends with
    | feed hline _ => exact hline hu
    | carriage _ => exact absurd (hfeed '\r' rfl) (by decide)
  rw [Fragment.stop, h.start_eq, ha, byteLength_append]
  refine Nat.add_lt_add_left ?_ _
  rcases List.append_eq_append_iff.1 hrest with ⟨m, rfl, -⟩ | ⟨m, hline, hb⟩
  · cases m with
    | nil => simp at hne
    | cons c m =>
      have hc := c.utf8Size_pos
      rw [byteLength_append, byteLength_cons]
      omega
  · cases m with
    | nil => exact absurd (by simpa using hline) hne
    | cons c m =>
      -- The line would go on behind the boundary, where a line feed stands.
      have hc : c = '\n' := hfeed c (by rw [hb]; rfl)
      exact absurd hc (h.inside c (by simp [hline]))

/-- The way back misses the boundaries behind a carriage return that ends a line. -/
theorem offset?_position_iff (a b : Text) :
    offset? (a ++ b) (position (a ++ b) a.byteLength) = some a.byteLength ↔
      ¬ BehindReturn a b := by
  constructor
  · intro hback hreturn
    obtain ⟨line, before, after, u, h, ha, hrest, hmin⟩ := offset?_position_min a b
    have hlt := h.stop_lt_of_behindReturn ha hrest hreturn
    rw [hback, Option.some.injEq] at hmin
    omega
  · exact offset?_position

/-! ## All positions of a text -/

/-- What the positions of a text say of its offsets. -/
structure PositionsExact (text : Text) : Prop where
  /-- Lines and columns are numbers of 32 bits. -/
  fits : ∀ o, (text.position o).Fits
  increasing : ∀ o o', text.isBoundary o = true → text.isBoundary o' = true → o < o' →
    (text.position o).Before (text.position o')
  /-- The line counts line feeds; the column is the UTF-16 length behind the last of them. -/
  exact : ∀ a b, text = a ++ b →
    text.position a.byteLength = ⟨a.count '\n', a.lastLine.unitLength⟩
  floor : ∀ o, ∃ boundary, IsGreatest {o' | text.isBoundary o' = true ∧ o' ≤ o} boundary ∧
    text.position o = text.position boundary
  past_end : ∀ o, text.byteLength ≤ o → text.position o = text.position text.byteLength
  back : ∀ o, text.isBoundary o = true → ∃ line, text.line? (text.lineOf o) = some line ∧
    text.offset? (text.position o) = some (min o line.stop)
  back_iff : ∀ a b, text = a ++ b →
    (text.offset? (text.position a.byteLength) = some a.byteLength ↔ ¬ BehindReturn a b)

/-- **Offsets and their positions.** -/
theorem positions_exact {text : Text} (hsize : text.byteLength < UInt32.size) :
    text.PositionsExact where
  fits := position_fits hsize
  increasing _ _ := position_before
  exact := by
    rintro a b rfl
    exact position_eq a b
  floor := position_floor text
  past_end _ := position_of_le
  back := by
    intro o ho
    obtain ⟨a, b, rfl, rfl⟩ := isBoundary_iff.1 ho
    obtain ⟨line, before, after, -, h, -, -, hback⟩ := offset?_position_min a b
    rw [lineOf_append]
    exact ⟨line, line?_eq_some_iff.2 ⟨before, after, h⟩, hback⟩
  back_iff := by
    rintro a b rfl
    exact offset?_position_iff a b

/-- Characters of two and four bytes, a line that ends with both terminators and one that ends
    with a carriage return alone: offset 4 lies inside a character, 7 and 10 behind the ends of
    the lines. -/
theorem positions_exact_returns :
    byteLength "é😀\r\nx\r".toList < UInt32.size ∧
      PositionsExact "é😀\r\nx\r".toList ∧
      ([0, 2, 4, 7, 8, 10].map (position "é😀\r\nx\r".toList) =
        [⟨0, 0⟩, ⟨0, 1⟩, ⟨0, 1⟩, ⟨0, 4⟩, ⟨1, 0⟩, ⟨1, 2⟩]) ∧
      ([⟨0, 4⟩, ⟨1, 2⟩].map (offset? "é😀\r\nx\r".toList) = [some 6, some 9]) :=
  ⟨by decide, positions_exact (by decide), by decide, by decide⟩

end Text

end StyleServer
