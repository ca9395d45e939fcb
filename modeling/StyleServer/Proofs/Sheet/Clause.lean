/-
  Clauses and the pieces that they are made of.

  * `Piece.marks_induction`: pieces are groups without marks, each ended by a mark,
    and a last group behind them.
  * `Body`: the text of a group, from its first string or word to its last, and what
    stands around it.
  * `reading_clauses`: clauses stand in the text one behind the other.
  * `filter_tokens`: the marks among the tokens are those of the clauses.
  * `Text.clauses_append`: behind a mark, the clauses of a text are those that it has
    alone, further back.
-/
import StyleServer.Proofs.Piece.Append
import StyleServer.Proofs.Text.Fragment
import StyleServer.Sheet.Clause

namespace StyleServer

/-! ## Groups of pieces -/

namespace Piece

theorem mark?_eq_some {p : Piece} {m : Mark} (h : p.mark? = some m) : p = .mark m := by
  cases p with
  | mark m' => simp only [mark?, Option.some.injEq] at h; rw [h]
  | blank | blockComment | lineComment | quoted | word => simp [mark?] at h

/-- No piece is a mark. -/
def Unmarked (ps : List Piece) : Prop := ∀ p ∈ ps, p.mark? = none

/-- Induction along the marks. -/
@[elab_as_elim]
theorem marks_induction {motive : List Piece → Prop} (ps : List Piece)
    (last : ∀ ps, Unmarked ps → motive ps)
    (mark : ∀ group m ps, Unmarked group → motive ps → motive (group ++ .mark m :: ps)) :
    motive ps := by
  -- The pieces read since the last mark stand before those to come.
  suffices h : ∀ group, Unmarked group → motive (group ++ ps) from h [] (by simp [Unmarked])
  induction ps with
  | nil => intro group hg; rw [List.append_nil]; exact last group hg
  | cons p ps ih =>
    intro group hg
    cases hp : p.mark? with
    | some m =>
      rw [mark?_eq_some hp]
      exact mark group m ps hg (ih [] (by simp [Unmarked]))
    | none =>
      have h := ih (group ++ [p]) fun q hq => by
        rcases List.mem_append.1 hq with hq | hq
        · exact hg q hq
        · rw [List.mem_singleton.1 hq]; exact hp
      simpa using h

@[simp] theorem allChars_nil : allChars [] = [] := rfl

@[simp] theorem allChars_cons (p : Piece) (ps : List Piece) :
    allChars (p :: ps) = p.chars ++ allChars ps := by
  simp [allChars]

@[simp] theorem allChars_append (ps qs : List Piece) :
    allChars (ps ++ qs) = allChars ps ++ allChars qs := by
  simp [allChars]

@[simp] theorem byteLength_mark (m : Mark) : Text.byteLength (Piece.mark m).chars = 1 := by
  cases m <;> rfl

end Piece

theorem splitMarks_unmarked {ps : List Piece} (h : Piece.Unmarked ps) : splitMarks ps = ([], ps) := by
  induction ps with
  | nil => rfl
  | cons p ps ih =>
    rw [splitMarks, h p List.mem_cons_self, ih fun q hq => h q (List.mem_cons_of_mem _ hq)]

theorem splitMarks_mark {group : List Piece} (h : Piece.Unmarked group) (m : Mark)
    (ps : List Piece) :
    splitMarks (group ++ .mark m :: ps) = ((group, m) :: (splitMarks ps).1, (splitMarks ps).2) := by
  induction group with
  | nil => rfl
  | cons p group ih =>
    rw [List.cons_append, splitMarks, h p List.mem_cons_self,
      ih fun q hq => h q (List.mem_cons_of_mem _ hq)]

namespace Clause

/-- The clauses of pieces that begin at a byte offset, and the body behind the last
    mark. -/
def ofPieces (offset : Nat) (ps : List Piece) : List Clause × Option Fragment :=
  let (groups, last) := splitMarks ps
  let (clauses, stop) := ofGroups offset groups
  (clauses, bodyOf? stop last)

theorem clauses_eq_ofPieces (text : Text) : text.clauses = ofPieces 0 text.pieces := rfl

theorem ofPieces_unmarked (offset : Nat) {ps : List Piece} (h : Piece.Unmarked ps) :
    ofPieces offset ps = ([], bodyOf? offset ps) := by
  simp only [ofPieces, splitMarks_unmarked h, ofGroups]

/-- The clause of a group that a mark ends. -/
def ofGroup (offset : Nat) (group : List Piece) (m : Mark) : Clause :=
  ⟨bodyOf? offset group, Piece.allChars (gapPieces group), m,
    offset + Text.byteLength (Piece.allChars group)⟩

theorem ofPieces_mark (offset : Nat) {group : List Piece} (h : Piece.Unmarked group) (m : Mark)
    (ps : List Piece) :
    ofPieces offset (group ++ .mark m :: ps) =
      (ofGroup offset group m :: (ofPieces (ofGroup offset group m).stop ps).1,
        (ofPieces (ofGroup offset group m).stop ps).2) := by
  simp only [ofPieces, splitMarks_mark h, ofGroups]
  rfl

/-! ## Bodies -/

/-- Pieces around a body, which runs from the first string or word to the last. -/
structure Body (ps lead body gap : List Piece) : Prop where
  eq : ps = lead ++ body ++ gap
  lead_blank : ∀ p ∈ lead, p.isText = false
  first : ∃ p rest, body = p :: rest ∧ p.isText = true
  last : ∃ init p, body = init ++ [p] ∧ p.isText = true
  gap_blank : ∀ p ∈ gap, p.isText = false

/-- A group with text in it has a body. -/
theorem exists_body {ps : List Piece} (h : ∃ p ∈ ps, p.isText = true) :
    ∃ lead body gap, Body ps lead body gap := by
  have hfirst := List.find?_isSome.2 h
  obtain ⟨p, hp⟩ := Option.isSome_iff_exists.1 hfirst
  obtain ⟨htext, lead, rest, rfl, hlead⟩ := List.find?_eq_some_iff_append.1 hp
  -- The last text is the first one from behind; at the latest it is `p`.
  have hlast : ((p :: rest).reverse.find? Piece.isText).isSome :=
    List.find?_isSome.2 ⟨p, by simp, htext⟩
  obtain ⟨q, hq⟩ := Option.isSome_iff_exists.1 hlast
  obtain ⟨hq, gap, init, heq, hgap⟩ := List.find?_eq_some_iff_append.1 hq
  have hbody : p :: rest = init.reverse ++ [q] ++ gap.reverse := by
    rw [← List.reverse_reverse (p :: rest), heq]; simp
  refine ⟨lead, init.reverse ++ [q], gap.reverse, ?_, by simpa using hlead, ?_, ⟨_, q, rfl, hq⟩,
    by simpa using hgap⟩
  · rw [hbody]; simp
  · cases hi : init.reverse with
    | nil =>
      rw [hi] at hbody
      exact ⟨q, [], rfl, hq⟩
    | cons p' init' =>
      rw [hi] at hbody
      simp only [List.cons_append, List.cons.injEq] at hbody
      exact ⟨p', init' ++ [q], rfl, hbody.1 ▸ htext⟩

theorem Body.gapPieces_eq {ps lead body gap : List Piece} (h : Body ps lead body gap) :
    gapPieces ps = gap := by
  obtain ⟨init, p, rfl, hp⟩ := h.last
  have hg : ∀ q ∈ gap.reverse, (!q.isText) = true := fun q hq => by
    simp [h.gap_blank q (List.mem_reverse.1 hq)]
  rw [gapPieces, h.eq]
  simp [List.takeWhile_append_of_pos hg, hp]

/-- Behind the blanks at the front stand the body and the gap. -/
theorem Body.dropWhile_eq {ps lead body gap : List Piece} (h : Body ps lead body gap) :
    ps.dropWhile (!·.isText) = body ++ gap := by
  have hl : ∀ q ∈ lead, (!q.isText) = true := fun q hq => by simp [h.lead_blank q hq]
  obtain ⟨p, rest, hp, ht⟩ := h.first
  rw [h.eq, List.append_assoc, List.dropWhile_append_of_pos hl, hp]
  simp [ht]

theorem Body.bodyPieces_eq {ps lead body gap : List Piece} (h : Body ps lead body gap) :
    bodyPieces (body ++ gap) = body := by
  have hg : ∀ q ∈ gap.reverse, (!q.isText) = true := fun q hq => by
    simp [h.gap_blank q (List.mem_reverse.1 hq)]
  obtain ⟨init, q, rfl, hq⟩ := h.last
  simp [bodyPieces, List.dropWhile_append_of_pos hg, hq]

theorem Body.bodyOf?_eq {ps lead body gap : List Piece} (h : Body ps lead body gap)
    (offset : Nat) :
    bodyOf? offset ps =
      some ⟨offset + Text.byteLength (Piece.allChars lead), Piece.allChars body⟩ := by
  have hl : ∀ q ∈ lead, (!q.isText) = true := fun q hq => by simp [h.lead_blank q hq]
  obtain ⟨p, rest, hp, ht⟩ := h.first
  have hlead : ps.takeWhile (!·.isText) = lead := by
    rw [h.eq, List.append_assoc, List.takeWhile_append_of_pos hl, hp]
    simp [ht]
  simp only [bodyOf?, hlead, h.dropWhile_eq, h.bodyPieces_eq]
  simp [hp]

theorem bodyOf?_of_blank (offset : Nat) {ps : List Piece} (h : ∀ p ∈ ps, p.isText = false) :
    bodyOf? offset ps = none := by
  have hd : ps.dropWhile (!·.isText) = [] := by
    rw [← List.append_nil ps, List.dropWhile_append_of_pos fun p hp => by simp [h p hp]]
    rfl
  simp [bodyOf?, hd, bodyPieces]

/-- The pieces around a body that is found. -/
theorem body_of_bodyOf? {offset : Nat} {ps : List Piece} {f : Fragment}
    (h : bodyOf? offset ps = some f) : ∃ lead body gap, Body ps lead body gap ∧
      f = ⟨offset + Text.byteLength (Piece.allChars lead), Piece.allChars body⟩ := by
  by_cases ht : ∃ p ∈ ps, p.isText = true
  · obtain ⟨lead, body, gap, hb⟩ := exists_body ht
    rw [hb.bodyOf?_eq, Option.some.injEq] at h
    exact ⟨lead, body, gap, hb, h.symm⟩
  · rw [bodyOf?_of_blank] at h
    · simp at h
    · intro p hp
      cases htp : p.isText with
      | false => rfl
      | true => exact absurd ⟨p, hp, htp⟩ ht

/-- A body stands behind the pieces before it, and the gap behind it. -/
theorem bodyOf?_eq_some {offset : Nat} {ps : List Piece} {f : Fragment}
    (h : bodyOf? offset ps = some f) :
    offset ≤ f.start ∧ f.stop + Text.byteLength (Piece.allChars (gapPieces ps)) =
      offset + Text.byteLength (Piece.allChars ps) := by
  obtain ⟨lead, body, gap, hb, rfl⟩ := body_of_bodyOf? h
  refine ⟨Nat.le_add_right .., ?_⟩
  rw [hb.gapPieces_eq, hb.eq]
  simp only [Fragment.stop, Piece.allChars_append, Text.byteLength_append]
  omega

/-! ## Clauses in order -/

/-- A clause stands behind `lo`. -/
structure StandsBehind (lo : Nat) (c : Clause) : Prop where
  le_start : lo ≤ c.start
  start_le : c.start ≤ c.offset
  body_stop : ∀ f ∈ c.body, f.stop + Text.byteLength c.gap = c.offset

theorem StandsBehind.le_stop {lo : Nat} {c : Clause} (h : c.StandsBehind lo) : lo ≤ c.stop :=
  Nat.le_succ_of_le (Nat.le_trans h.le_start h.start_le)

theorem StandsBehind.mono {lo lo' : Nat} {c : Clause} (h : c.StandsBehind lo) (hle : lo' ≤ lo) :
    c.StandsBehind lo' :=
  ⟨Nat.le_trans hle h.le_start, h.start_le, h.body_stop⟩

/-- The body lies between `lo` and the mark. -/
theorem StandsBehind.body {lo : Nat} {c : Clause} (h : c.StandsBehind lo) :
    ∀ f ∈ c.body, lo ≤ f.start ∧ f.stop ≤ c.offset := by
  intro f hf
  have hstart : c.start = f.start := by rw [start, Option.mem_def.1 hf]; rfl
  exact ⟨hstart ▸ h.le_start, h.body_stop f hf ▸ Nat.le_add_right ..⟩

/-- The statement runs from the body through the mark. -/
theorem StandsBehind.statement_span {lo : Nat} {c : Clause} (h : c.StandsBehind lo) :
    ∀ f ∈ c.statement, f.span = ⟨c.start, c.stop⟩ := by
  intro f hf
  obtain ⟨body, hb, rfl⟩ := Option.map_eq_some_iff.1 hf
  have hstart : c.start = body.start := by rw [start, hb]; rfl
  have hstop := h.body_stop body hb
  have hmark : Text.byteLength [c.mark.char] = 1 := Piece.byteLength_mark c.mark
  simp only [Fragment.span, Fragment.stop, stop, hstart, Text.byteLength_append, hmark,
    Span.mk.injEq, true_and] at hstop ⊢
  omega

theorem ofGroup_standsBehind (offset : Nat) (group : List Piece) (m : Mark) :
    (ofGroup offset group m).StandsBehind offset := by
  cases hb : bodyOf? offset group with
  | none =>
    have hstart : (ofGroup offset group m).start = (ofGroup offset group m).offset := by
      simp [ofGroup, start, hb]
    exact ⟨by rw [hstart]; exact Nat.le_add_right .., Nat.le_of_eq hstart, by simp [ofGroup, hb]⟩
  | some f =>
    obtain ⟨hle, hstop⟩ := bodyOf?_eq_some hb
    have hstart : (ofGroup offset group m).start = f.start := by simp [ofGroup, start, hb]
    refine ⟨hstart ▸ hle, ?_, ?_⟩
    · rw [hstart]
      simp only [ofGroup, Fragment.stop] at hstop ⊢
      omega
    · simpa [ofGroup, hb] using hstop

/-- Clauses stand one behind the other in a text of `size` bytes, from `lo` on, and
    the body behind the last mark behind them all. -/
inductive Reading (size : Nat) : Nat → List Clause → Option Fragment → Prop where
  | last {lo : Nat} {last : Option Fragment} (le_size : lo ≤ size)
      (fits : ∀ f ∈ last, lo ≤ f.start ∧ f.stop ≤ size) : Reading size lo [] last
  | clause {lo : Nat} {c : Clause} {cs : List Clause} {last : Option Fragment}
      (stands : c.StandsBehind lo) (rest : Reading size c.stop cs last) :
      Reading size lo (c :: cs) last

theorem size_mark (offset : Nat) (group : List Piece) (m : Mark) (ps : List Piece) :
    offset + Text.byteLength (Piece.allChars (group ++ .mark m :: ps)) =
      (ofGroup offset group m).stop + Text.byteLength (Piece.allChars ps) := by
  simp only [stop, ofGroup, Piece.allChars_append, Piece.allChars_cons, Text.byteLength_append,
    Piece.byteLength_mark]
  omega

theorem reading_ofPieces (offset : Nat) (ps : List Piece) :
    Reading (offset + Text.byteLength (Piece.allChars ps)) offset
      (ofPieces offset ps).1 (ofPieces offset ps).2 := by
  induction ps using Piece.marks_induction generalizing offset with
  | last ps h =>
    rw [ofPieces_unmarked offset h]
    refine .last (Nat.le_add_right ..) fun f hf => ?_
    obtain ⟨hle, hstop⟩ := bodyOf?_eq_some hf
    exact ⟨hle, by omega⟩
  | mark group m ps h ih =>
    rw [ofPieces_mark offset h, size_mark]
    exact .clause (ofGroup_standsBehind ..) (ih _)

/-- **The clauses of a text stand in it one behind the other.** -/
theorem reading_clauses (text : Text) :
    Reading text.byteLength 0 text.clauses.1 text.clauses.2 := by
  have h := reading_ofPieces 0 text.pieces
  rwa [Text.allChars_pieces, Nat.zero_add] at h

namespace Reading

variable {size lo : Nat} {cs : List Clause} {last : Option Fragment}

theorem le_size (h : Reading size lo cs last) : lo ≤ size := by
  induction h with
  | last h _ => exact h
  | clause hs _ ih => exact Nat.le_trans hs.le_stop ih

theorem standsBehind (h : Reading size lo cs last) : ∀ c ∈ cs, c.StandsBehind lo := by
  induction h with
  | last => simp
  | clause hs _ ih =>
    intro c hc
    rcases List.mem_cons.1 hc with rfl | hc
    · exact hs
    · exact (ih c hc).mono hs.le_stop

end Reading

/-! ## Marks -/

/-- The mark of a clause as a token. -/
def token (c : Clause) : Token := ⟨.mark c.mark, ⟨c.offset, c.stop⟩⟩

end Clause

/-- The token is a mark. -/
def Token.isMark (t : Token) : Bool := t.kind != .text

theorem tokensFrom_append (offset : Nat) (ps qs : List Piece) :
    tokensFrom offset (ps ++ qs) =
      tokensFrom offset ps ++ tokensFrom (offset + Text.byteLength (Piece.allChars ps)) qs := by
  induction ps generalizing offset with
  | nil => rfl
  | cons p ps ih =>
    simp only [List.cons_append, tokensFrom, ih, Piece.allChars_cons, Text.byteLength_append,
      Piece.size, Nat.add_assoc]
    cases p.tokenKind? <;> rfl

theorem filter_tokensFrom_unmarked (offset : Nat) {ps : List Piece} (h : Piece.Unmarked ps) :
    (tokensFrom offset ps).filter Token.isMark = [] := by
  induction ps generalizing offset with
  | nil => rfl
  | cons p ps ih =>
    have ih := ih (offset + p.size) fun q hq => h q (List.mem_cons_of_mem _ hq)
    cases p with
    | mark m => exact absurd (h _ List.mem_cons_self) (by simp [Piece.mark?])
    | quoted | word => simpa [tokensFrom, Piece.tokenKind?, Token.isMark] using ih
    | blank | blockComment | lineComment => exact ih

theorem tokensFrom_unmarked (offset : Nat) {ps : List Piece} (h : Piece.Unmarked ps) :
    ∀ t ∈ tokensFrom offset ps, t.isMark = false := by
  intro t ht
  cases hm : t.isMark with
  | false => rfl
  | true =>
    have hmem : t ∈ (tokensFrom offset ps).filter Token.isMark := List.mem_filter.2 ⟨ht, hm⟩
    rw [filter_tokensFrom_unmarked offset h] at hmem
    simp at hmem

theorem tokensFrom_mark (offset : Nat) (group : List Piece) (m : Mark) (ps : List Piece) :
    tokensFrom offset (group ++ .mark m :: ps) = tokensFrom offset group ++
      (Clause.ofGroup offset group m).token ::
        tokensFrom (Clause.ofGroup offset group m).stop ps := by
  rw [tokensFrom_append]
  cases m <;> rfl

theorem tokensFrom_blank (offset : Nat) {ps : List Piece} (hu : Piece.Unmarked ps)
    (h : ∀ p ∈ ps, p.isText = false) : tokensFrom offset ps = [] := by
  induction ps generalizing offset with
  | nil => rfl
  | cons p ps ih =>
    have ih := ih (offset + p.size) (fun q hq => hu q (List.mem_cons_of_mem _ hq))
      fun q hq => h q (List.mem_cons_of_mem _ hq)
    cases p with
    | mark m => exact absurd (hu _ List.mem_cons_self) (by simp [Piece.mark?])
    | quoted | word => exact absurd (h _ List.mem_cons_self) (by simp [Piece.isText])
    | blank | blockComment | lineComment => exact ih

theorem filter_tokensFrom (offset : Nat) (ps : List Piece) :
    (tokensFrom offset ps).filter Token.isMark = (Clause.ofPieces offset ps).1.map Clause.token := by
  induction ps using Piece.marks_induction generalizing offset with
  | last ps h => rw [filter_tokensFrom_unmarked offset h, Clause.ofPieces_unmarked offset h]; rfl
  | mark group m ps h ih =>
    rw [tokensFrom_append, List.filter_append, filter_tokensFrom_unmarked offset h,
      Clause.ofPieces_mark offset h, List.nil_append, List.map_cons, ← ih]
    cases m <;> rfl

/-- **The marks among the tokens of a text are those of its clauses.** -/
theorem filter_tokens (text : Text) :
    (tokens text).filter Token.isMark = text.clauses.1.map Clause.token :=
  filter_tokensFrom 0 text.pieces

/-! ## Moving -/

namespace Clause

/-- The clause `n` bytes further back. -/
def shift (n : Nat) (c : Clause) : Clause :=
  { c with body := c.body.map (Fragment.shift n), offset := c.offset + n }

@[simp] theorem shift_stop (n : Nat) (c : Clause) : (c.shift n).stop = c.stop + n := by
  simp only [stop, shift]
  omega

@[simp] theorem shift_start (n : Nat) (c : Clause) : (c.shift n).start = c.start + n := by
  cases hb : c.body <;> simp [start, shift, hb]

theorem shift_statement (n : Nat) (c : Clause) :
    (c.shift n).statement = c.statement.map (Fragment.shift n) := by
  cases hb : c.body <;> simp [statement, shift, hb, Fragment.shift]

theorem bodyOf?_shift (n offset : Nat) (ps : List Piece) :
    bodyOf? (offset + n) ps = (bodyOf? offset ps).map (Fragment.shift n) := by
  simp only [bodyOf?]
  split
  · rfl
  · simp only [Option.map_some, Fragment.shift, Option.some.injEq, Fragment.mk.injEq, and_true]
    omega

theorem ofGroup_shift (n offset : Nat) (group : List Piece) (m : Mark) :
    ofGroup (offset + n) group m = (ofGroup offset group m).shift n := by
  simp only [ofGroup, shift, bodyOf?_shift, Clause.mk.injEq, true_and]
  omega

theorem ofPieces_shift (n offset : Nat) (ps : List Piece) :
    ofPieces (offset + n) ps =
      ((ofPieces offset ps).1.map (shift n), (ofPieces offset ps).2.map (Fragment.shift n)) := by
  induction ps using Piece.marks_induction generalizing offset with
  | last ps h => rw [ofPieces_unmarked _ h, ofPieces_unmarked _ h, bodyOf?_shift]; rfl
  | mark group m ps h ih =>
    rw [ofPieces_mark _ h, ofPieces_mark _ h, ofGroup_shift, shift_stop, ih]
    rfl

theorem ofPieces_append (offset : Nat) {ps : List Piece} (h : Piece.EndWithMark ps)
    (qs : List Piece) :
    ofPieces offset (ps ++ qs) =
      ((ofPieces offset ps).1 ++
          (ofPieces (offset + Text.byteLength (Piece.allChars ps)) qs).1,
        (ofPieces (offset + Text.byteLength (Piece.allChars ps)) qs).2) := by
  induction ps using Piece.marks_induction generalizing offset with
  | last ps hu =>
    rcases List.eq_nil_or_concat ps with rfl | ⟨init, p, rfl⟩
    · rfl
    · obtain ⟨m, rfl⟩ := h p (by simp)
      exact absurd (hu (.mark m) (by simp)) (by simp [Piece.mark?])
  | mark group m ps hu ih =>
    have hps : Piece.EndWithMark ps := fun p hp => h p (by
      simp only [Option.mem_def] at hp
      simp [List.getLast?_cons, hp])
    rw [size_mark, List.append_assoc, List.cons_append, ofPieces_mark _ hu, ofPieces_mark _ hu,
      ih _ hps]
    rfl

end Clause

/-- **Behind a mark, a text has the clauses that it has alone,** further back. -/
theorem Text.clauses_append {a : Text} (h : Piece.EndWithMark a.pieces) (b : Text) :
    (a ++ b).clauses =
      (a.clauses.1 ++ b.clauses.1.map (Clause.shift a.byteLength),
        b.clauses.2.map (Fragment.shift a.byteLength)) := by
  simp only [Clause.clauses_eq_ofPieces, pieces_append h, Clause.ofPieces_append 0 h,
    allChars_pieces, Clause.ofPieces_shift a.byteLength 0 b.pieces]

end StyleServer
