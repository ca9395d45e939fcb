/-
  Nested blocks: what reading records and what the check of braces reports.

  Reading follows the blocks by its level, the check by one depth.  Both are compared
  with a third account, `nestedBraces`: the opening braces at depth one, each with the
  end of its block.

  * `filter_braceDiagnosticsFrom`: the check reports exactly these braces.
  * `nested_itemsFrom`: reading records their blocks, and no others.
  * `nestedBraces_ends`: the end is the closing brace that returns to the depth before
    the block, or the end of the text.
-/
import StyleServer.Proofs.Sheet.Level
import Mathlib.Data.List.Forall2

namespace StyleServer

/-! ## The opening braces of nested blocks -/

/-- Where a nested block ends that is open at a depth: behind the first token that
    returns to depth one, or at `size` without one. -/
def blockStop (size : Nat) : Nat → List Token → Nat
  | _, [] => size
  | depth, t :: ts =>
    if depthAfter depth t ≤ 1 then t.span.stop else blockStop size (depthAfter depth t) ts

/-- The opening braces at depth one, each with the end of its block. -/
def nestedBraces (size : Nat) : Nat → List Token → List (Token × Nat)
  | _, [] => []
  | depth, t :: ts =>
    if t.kind = .mark .openBrace ∧ depth = 1 then
      (t, blockStop size 2 ts) :: nestedBraces size 2 ts
    else nestedBraces size (depthAfter depth t) ts

variable {size : Nat}

theorem blockStop_filter {depth : Nat} (h : 1 < depth) (ts : List Token) :
    blockStop size depth (ts.filter Token.isMark) = blockStop size depth ts := by
  induction ts generalizing depth with
  | nil => rfl
  | cons t ts ih =>
    cases hm : t.isMark with
    | true =>
      rw [List.filter_cons_of_pos hm, blockStop, blockStop]
      split
      · rfl
      · exact ih (by omega)
    | false =>
      rw [List.filter_cons_of_neg (by simp [hm]), blockStop, depthAfter_text hm,
        if_neg (by omega), ih h]

/-- The braces depend on the marks alone. -/
theorem nestedBraces_filter (depth : Nat) (ts : List Token) :
    nestedBraces size depth (ts.filter Token.isMark) = nestedBraces size depth ts := by
  induction ts generalizing depth with
  | nil => rfl
  | cons t ts ih =>
    cases hm : t.isMark with
    | true =>
      rw [List.filter_cons_of_pos hm, nestedBraces, nestedBraces, ih, ih,
        blockStop_filter (by omega)]
    | false =>
      have hk : ¬ (t.kind = .mark .openBrace ∧ depth = 1) := by
        rintro ⟨hk, -⟩
        simp [Token.isMark, hk] at hm
      rw [List.filter_cons_of_neg (by simp [hm]), nestedBraces, if_neg hk, depthAfter_text hm, ih]

/-! ## What the check reports -/

/-- The diagnostics of nested blocks. -/
def nestedDiagnostics (text : Text) : List Diagnostic :=
  (braceDiagnostics text).filter (·.issue = .nestedBlock)

theorem filter_braceDiagnosticsFrom (text : Text) (size depth : Nat) (ts : List Token) :
    (braceDiagnosticsFrom text depth ts).filter (·.issue = .nestedBlock) =
      (nestedBraces size depth ts).map fun b => ⟨text.range b.1.span, .nestedBlock⟩ := by
  induction ts generalizing depth with
  | nil =>
    rw [braceDiagnosticsFrom, nestedBraces]
    split <;> simp
  | cons t ts ih =>
    rw [braceDiagnosticsFrom, List.filter_append, ih, nestedBraces]
    by_cases hb : t.kind = .mark .openBrace ∧ depth = 1
    · obtain ⟨hk, rfl⟩ := hb
      simp [braceIssue?, depthAfter, hk]
    · rw [if_neg hb]
      -- A token that opens no nested block is reported for something else or not at all.
      have hnone : ∀ d ∈ braceIssue? text depth t, d.issue ≠ .nestedBlock := by
        intro d hd
        simp only [braceIssue?, Option.mem_def] at hd
        split at hd
        · next hk =>
          rw [if_neg fun h => hb ⟨hk, h⟩] at hd
          simp at hd
        · split at hd
          · simp only [Option.some.injEq] at hd; simp [← hd]
          · simp at hd
        · simp at hd
        · simp at hd
      cases hi : braceIssue? text depth t with
      | none => rfl
      | some d => simp [hnone d hi]

/-! ## What reading records -/

/-- The span is recorded for the brace: it holds the brace, and ends where the block
    does. -/
structure RecordedFor (brace : Token × Nat) (block : Span) : Prop where
  holds : block.holds brace.1.span = true
  stop_eq : block.stop = brace.2

/-- A block ends behind what has been read. -/
theorem le_blockStop {lo : Nat} {cs : List Clause} {last : Option Fragment}
    (hr : Clause.Reading size lo cs last) (depth : Nat) :
    lo ≤ blockStop size depth (cs.map Clause.token) := by
  induction hr generalizing depth with
  | last hle => exact hle
  | clause hs _ ih =>
    rw [List.map_cons, blockStop]
    split
    · exact hs.le_stop
    · exact Nat.le_trans hs.le_stop (ih _)

namespace Level

/-- The nested block that is open at a level, up to its end among the tokens to come. -/
def pending (size : Nat) (ts : List Token) : Level → List Span
  | outside | block _ => []
  | nested _ start depth => [⟨start, blockStop size (depth + 1) ts⟩]

theorem filterMap_nested?_directive (i : Option Import) :
    (i.map SheetItem.directive).toList.filterMap SheetItem.nested? = [] := by
  cases i <;> rfl

theorem filterMap_nested?_rule (owner : Option Rule) (f : Rule → Rule) :
    (owner.map fun r => SheetItem.rule (f r)).toList.filterMap SheetItem.nested? = [] := by
  cases owner <;> rfl

/-- Where no nested block is opened, a pending one is completed or stays pending. -/
theorem pending_step {level : Level} (h : level.Valid) (c : Clause) (ts : List Token)
    (hopen : ¬ (c.mark = .openBrace ∧ level.depth = 1)) :
    (level.step c).2.filterMap SheetItem.nested? ++ (level.step c).1.pending size ts =
      level.pending size (c.token :: ts) := by
  cases level with
  | outside =>
    cases hm : c.mark <;>
      simp only [step, hm, pending, filterMap_nested?_directive, List.filterMap_nil, List.append_nil]
  | block owner =>
    cases hm : c.mark with
    | semicolon => simp only [step, hm, pending, List.filterMap_nil, List.append_nil]
    | openBrace => exact absurd ⟨hm, rfl⟩ hopen
    | closeBrace => simp only [step, hm, pending, filterMap_nested?_rule, List.append_nil]
  | nested owner start depth =>
    have h : 1 ≤ depth := h
    cases hm : c.mark with
    | semicolon =>
      have hd : depthAfter (depth + 1) c.token = depth + 1 := by simp [depthAfter, Clause.token, hm]
      simp [step, hm, pending, blockStop, hd, Nat.ne_of_gt h]
    | openBrace =>
      have hd : depthAfter (depth + 1) c.token = depth + 2 := by simp [depthAfter, Clause.token, hm]
      simp [step, hm, pending, blockStop, hd]
    | closeBrace =>
      have hd : depthAfter (depth + 1) c.token = depth := by simp [depthAfter, Clause.token, hm]
      have hstop : c.token.span.stop = c.stop := rfl
      by_cases hlast : depth ≤ 1
      · simp [step, hm, pending, blockStop, hd, hlast, hstop, SheetItem.nested?]
      · have hdepth : depth - 1 + 1 = depth := by omega
        simp [step, hm, pending, blockStop, hd, hlast, hdepth]

/-- At depth one, reading stands in a block and in no nested one. -/
theorem eq_block {level : Level} (h : level.Valid) (hd : level.depth = 1) :
    ∃ owner, level = block owner := by
  cases level with
  | outside => simp [depth] at hd
  | block owner => exact ⟨owner, rfl⟩
  | nested owner start depth =>
    simp only [Level.depth, Valid] at h hd
    omega

end Level

/-- **Reading records a block for every brace:** the pending one first, then those that
    the clauses to come open. -/
theorem nested_itemsFrom {lo : Nat} {cs : List Clause} {last : Option Fragment}
    (hr : Clause.Reading size lo cs last) {level : Level} (h : level.Valid) :
    ∃ blocks, (itemsFrom size last level cs).filterMap SheetItem.nested? =
        level.pending size (cs.map Clause.token) ++ blocks ∧
      List.Forall₂ RecordedFor (nestedBraces size level.depth (cs.map Clause.token)) blocks := by
  induction hr generalizing level with
  | last =>
    refine ⟨[], ?_, .nil⟩
    cases level with
    | outside => rfl
    | block owner => simp [itemsFrom, Level.finish, Level.filterMap_nested?_rule, Level.pending]
    | nested owner start depth =>
      simp [itemsFrom, Level.finish, Level.filterMap_nested?_rule, Level.pending, blockStop,
        SheetItem.nested?]
  | @clause lo c cs last hs rest ih =>
    obtain ⟨blocks, hitems, hblocks⟩ := ih (Level.step_valid h c)
    -- A block that this clause opens is pending behind it, and comes before those of `blocks`.
    rw [itemsFrom, List.filterMap_append, hitems, List.map_cons, nestedBraces]
    by_cases hopen : c.mark = .openBrace ∧ level.depth = 1
    · obtain ⟨hm, hd⟩ := hopen
      obtain ⟨owner, rfl⟩ := Level.eq_block h hd
      rw [if_pos ⟨by simp [Clause.token, hm], rfl⟩]
      simp only [Level.step, hm, Level.pending, Level.depth] at hblocks ⊢
      refine ⟨_, rfl, .cons ⟨?_, rfl⟩ hblocks⟩
      exact Span.holds_iff.2 ⟨hs.start_le, le_blockStop rest 2⟩
    · rw [if_neg (by simpa [Clause.token] using hopen), ← Level.step_depth h, ← List.append_assoc,
        Level.pending_step h c _ hopen]
      exact ⟨blocks, rfl, hblocks⟩

/-! ## Where the blocks end -/

/-- A block with the tokens `ts` to come, which begin at `depth`, ends at `stop`: behind the
    closing brace that first returns to the depth `floor` before the block, or, where none
    does, at `size`. -/
def BlockEnds (size floor depth : Nat) (ts : List Token) (stop : Nat) : Prop :=
  (∃ inside close rest, ts = inside ++ close :: rest ∧ close.kind = .mark .closeBrace ∧
      (inside ++ [close]).foldl depthAfter depth = floor ∧
      (∀ front, front <+: inside → floor < front.foldl depthAfter depth) ∧
      stop = close.span.stop) ∨
    (∀ front, front <+: ts → floor < front.foldl depthAfter depth) ∧ stop = size

/-- Only a closing brace leads to a lower depth, and by one. -/
theorem depthAfter_lt {depth : Nat} {t : Token} (h : depthAfter depth t < depth) :
    t.kind = .mark .closeBrace ∧ depthAfter depth t + 1 = depth := by
  unfold depthAfter at h ⊢
  split at h
  · omega
  · next hk => exact ⟨hk, by omega⟩
  · omega
  · omega

theorem BlockEnds.cons {floor depth : Nat} {t : Token} {ts : List Token} {stop : Nat}
    (h : floor < depth) (hends : BlockEnds size floor (depthAfter depth t) ts stop) :
    BlockEnds size floor depth (t :: ts) stop := by
  have hfront : ∀ {us : List Token},
      (∀ front, front <+: us → floor < front.foldl depthAfter (depthAfter depth t)) →
      ∀ front, front <+: t :: us → floor < front.foldl depthAfter depth := by
    intro us hus front hf
    rcases List.prefix_cons_iff.1 hf with rfl | ⟨front, rfl, hus'⟩
    · exact h
    · exact hus front hus'
  rcases hends with ⟨inside, close, rest, rfl, hk, hback, habove, rfl⟩ | ⟨habove, rfl⟩
  · exact Or.inl ⟨t :: inside, close, rest, rfl, hk, hback, hfront habove, rfl⟩
  · exact Or.inr ⟨hfront habove, rfl⟩

theorem blockStop_ends {depth : Nat} (h : 1 < depth) (ts : List Token) :
    BlockEnds size 1 depth ts (blockStop size depth ts) := by
  induction ts generalizing depth with
  | nil =>
    refine Or.inr ⟨fun front hf => ?_, rfl⟩
    rw [List.prefix_nil.1 hf]
    exact h
  | cons t ts ih =>
    rw [blockStop]
    split
    · next hle =>
      obtain ⟨hk, hd⟩ := depthAfter_lt (Nat.lt_of_le_of_lt hle h)
      refine Or.inl ⟨[], t, ts, rfl, hk, ?_, fun front hf => ?_, rfl⟩
      · show depthAfter depth t = 1
        omega
      · rw [List.prefix_nil.1 hf]
        exact h
    · next hlt => exact .cons h (ih (Nat.lt_of_not_le hlt))

/-- Each brace stands among the tokens at depth one, and its block ends as it should. -/
theorem nestedBraces_ends {depth : Nat} {ts : List Token} {brace : Token} {stop : Nat}
    (h : (brace, stop) ∈ nestedBraces size depth ts) :
    ∃ before after, ts = before ++ brace :: after ∧ brace.kind = .mark .openBrace ∧
      before.foldl depthAfter depth = 1 ∧ BlockEnds size 1 2 after stop := by
  induction ts generalizing depth with
  | nil => simp [nestedBraces] at h
  | cons t ts ih =>
    rw [nestedBraces] at h
    split at h
    · next hopen =>
      obtain ⟨hk, rfl⟩ := hopen
      rcases List.mem_cons.1 h with heq | h
      · cases heq
        exact ⟨[], ts, rfl, hk, rfl, blockStop_ends (by omega) ts⟩
      · obtain ⟨before, after, rfl, hb, hd, hends⟩ := ih h
        exact ⟨t :: before, after, rfl, hb, by simpa [depthAfter, hk] using hd, hends⟩
    · obtain ⟨before, after, rfl, hb, hd, hends⟩ := ih h
      exact ⟨t :: before, after, rfl, hb, hd, hends⟩

/-! ## Agreement -/

/-- A diagnostic and a block belong to the same opening brace: the diagnostic stands at the
    brace, the block holds the brace and runs to where the depth before it is reached again,
    or to the end of the text. -/
def SameBrace (text : Text) (d : Diagnostic) (block : Span) : Prop :=
  ∃ before brace after, tokens text = before ++ brace :: after ∧
    brace.kind = .mark .openBrace ∧ d.range = text.range brace.span ∧
    block.holds brace.span = true ∧
    BlockEnds text.byteLength (depthOf before) (depthOf (before ++ [brace])) after block.stop

theorem nestedDiagnostics_eq (text : Text) :
    nestedDiagnostics text =
      (nestedBraces text.byteLength 0 (tokens text)).map fun b =>
        ⟨text.range b.1.span, .nestedBlock⟩ :=
  filter_braceDiagnosticsFrom text text.byteLength 0 (tokens text)

theorem nestedBlocks_recorded (text : Text) :
    List.Forall₂ RecordedFor (nestedBraces text.byteLength 0 (tokens text))
      (Sheet.ofText text).nestedBlocks := by
  have houtside : Level.outside.Valid := trivial
  obtain ⟨blocks, hitems, hblocks⟩ := nested_itemsFrom (Clause.reading_clauses text) houtside
  rw [← filter_tokens, nestedBraces_filter] at hblocks
  have heq : (Sheet.ofText text).nestedBlocks = blocks := hitems
  rw [heq]
  exact hblocks

/-- A brace of the text, as it is reported and as it is recorded. -/
theorem sameBrace_of_mem {text : Text} {brace : Token × Nat} {block : Span}
    (h : brace ∈ nestedBraces text.byteLength 0 (tokens text)) (hr : RecordedFor brace block) :
    SameBrace text ⟨text.range brace.1.span, .nestedBlock⟩ block := by
  obtain ⟨before, after, heq, hk, hd, hends⟩ := nestedBraces_ends h
  have hbefore : depthOf before = 1 := hd
  have hbehind : depthOf (before ++ [brace.1]) = 2 := by
    rw [depthOf, List.foldl_append]
    show depthAfter (depthOf before) brace.1 = 2
    simp only [depthAfter, hk, hbefore]
  refine ⟨before, brace.1, after, heq, hk, rfl, hr.holds, ?_⟩
  rw [hbefore, hbehind, hr.stop_eq]
  exact hends

/-- **Reading and the check agree on nested blocks:** there are as many diagnostics as blocks,
    and those at the same place in the two lists belong to the same brace. -/
theorem nestedBlocks_reported (text : String) :
    List.Forall₂ (SameBrace text.toList) (nestedDiagnostics text.toList)
      (Sheet.parse text).nestedBlocks := by
  rw [nestedDiagnostics_eq, List.forall₂_map_left_iff]
  have h := (List.forall₂_and_left _ _).2 ⟨fun _ hb => hb, nestedBlocks_recorded text.toList⟩
  exact h.imp fun brace block hb => sameBrace_of_mem hb.1 hb.2

end StyleServer
