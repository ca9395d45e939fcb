/-
  What the check of braces reports.

  The check goes along the tokens with a depth that never falls below zero.  Its
  diagnostics are compared with the braces themselves, each at the depth behind the
  tokens before it.

  * `LineAt.isLineRange`: the range of a whole line.
  * `braceDiagnosticsFrom_eq`: each token is reported on its own, and what is open at
    the end comes last.
  * `openBraces_add_stray`, `braceDiagnosticsFrom_eq_nil`: the balance of the braces, and
    the braces of which none is reported.
  * `BracesExact`, `braceDiagnostics_exact`: all of this about one text.
-/
import StyleServer.Proofs.Piece.Partition
import StyleServer.Proofs.Sheet.Blocks
import StyleServer.Proofs.Text.Positions

namespace StyleServer

/-! ## Whole lines -/

namespace Text

/-- The range runs from the first column of a line to its end. -/
def IsLineRange (text : Text) (index : Nat) (line : Fragment) (range : Range) : Prop :=
  (∃ before after, text.LineAt index line before after) ∧
    range = ⟨⟨index, 0⟩, ⟨index, line.chars.unitLength⟩⟩

theorem LineAt.lineRange_eq {text before after : Text} {index : Nat} {line : Fragment}
    (h : text.LineAt index line before after) : text.lineRange index = text.range line.span := by
  rw [lineRange, line?_eq_some_iff.2 ⟨before, after, h⟩]

theorem LineAt.isLineRange {text before after : Text} {index : Nat} {line : Fragment}
    (h : text.LineAt index line before after) :
    text.IsLineRange index line (text.lineRange index) := by
  have hstart := h.position_eq (u := []) (v := line.chars) rfl
  have hstop := h.position_eq (u := line.chars) (v := []) (by simp)
  refine ⟨⟨before, after, h⟩, ?_⟩
  rw [h.lineRange_eq, range, Range.mk.injEq]
  exact ⟨hstart, hstop⟩

/-- A line does not end before characters of which none is an end of a line. -/
theorem EndsLine.not_before {line m b : Text} {c : Char} (hm : ∀ d ∈ m, d ≠ '\n') (hn : c ≠ '\n')
    (hr : c ≠ '\r') : ¬ EndsLine line (m ++ c :: b) := by
  have hhead : ∀ {n : Text}, (∀ d ∈ n, d ≠ '\n') → ¬ ∀ d ∈ (n ++ c :: b).head?, d = '\n' := by
    intro n hnfeed hfeed
    cases n with
    | nil => exact hn (hfeed c rfl)
    | cons d n => exact hnfeed d List.mem_cons_self (hfeed d rfl)
  intro h
  generalize hafter : m ++ c :: b = after at h
  cases h with
  | feed _ hfeed =>
    rw [← hafter] at hfeed
    exact hhead hm hfeed
  | carriage hfeed =>
    cases m with
    | nil => exact hr (List.cons.inj hafter).1
    | cons d m =>
      rw [← (List.cons.inj hafter).2] at hfeed
      exact hhead (fun e he => hm e (List.mem_cons_of_mem _ he)) hfeed

/-- A character that ends no line stands inside of one. -/
theorem exists_line_around (a b : Text) {c : Char} (hn : c ≠ '\n') (hr : c ≠ '\r') :
    ∃ line before after u v, LineAt (a ++ c :: b) (a.count '\n') line before after ∧
      a = before ++ u ∧ line.chars = u ++ c :: v := by
  obtain ⟨line, before, after, u, h, ha, hu, hrest⟩ := exists_lineAt a (c :: b)
  rcases List.append_eq_append_iff.1 hrest with ⟨m, rfl, hm⟩ | ⟨m, hline, hm⟩
  · have hfeed : ∀ d ∈ m, d ≠ '\n' := fun d hd => hu d (List.mem_append_right _ hd)
    exact absurd (hm ▸ h.ends) (EndsLine.not_before hfeed hn hr)
  · cases m with
    | nil =>
      rw [List.nil_append] at hm
      exact absurd (hm ▸ h.ends) (EndsLine.not_before (m := []) (by simp) hn hr)
    | cons d m =>
      obtain ⟨rfl, -⟩ := List.cons.inj hm
      exact ⟨line, before, after, u, m, h, ha, hline⟩

/-- The position of a boundary in a line lies in the range of the line. -/
theorem IsLineRange.holds_position {text : Text} {index : Nat} {line : Fragment} {range : Range}
    (h : text.IsLineRange index line range) {u v : Text} (hu : line.chars = u ++ v) :
    range.holds (text.position (line.start + u.byteLength)) = true := by
  obtain ⟨⟨before, after, hat⟩, rfl⟩ := h
  rw [hat.position_eq hu, hu, unitLength_append]
  simp [Range.holds, Position.le]

end Text

/-! ## Reports of single tokens -/

namespace TokenAt

/-- A closing brace at depth zero. -/
def isStray (o : TokenAt) : Bool := o.token.kind == .mark .closeBrace && depthOf o.before == 0

/-- An opening brace at depth one. -/
def opensNested (o : TokenAt) : Bool := o.token.kind == .mark .openBrace && depthOf o.before == 1

/-- What the token is reported for. -/
def issue? (text : Text) (o : TokenAt) : Option Diagnostic :=
  braceIssue? text (depthOf o.before) o.token

/-- Only nested openings and stray closings are reported. -/
theorem issue?_eq (text : Text) (o : TokenAt) :
    o.issue? text =
      if o.opensNested then some ⟨text.range o.token.span, .nestedBlock⟩
      else if o.isStray then
        some ⟨text.lineRange (text.lineOf o.token.span.start), .unmatchedClosingBrace⟩
      else none := by
  simp only [issue?, braceIssue?, opensNested, isStray]
  split
  · next hk => simp [hk]
  · next hk => simp [hk]
  · next hk => simp [hk]
  · next hk => simp [hk]

theorem kind_of_isStray {o : TokenAt} (h : o.isStray = true) :
    o.token.kind = .mark .closeBrace := by
  simp only [isStray, Bool.and_eq_true, beq_iff_eq] at h
  exact h.1

theorem isStray_of_opensNested {o : TokenAt} (h : o.opensNested = true) : o.isStray = false := by
  simp only [opensNested, Bool.and_eq_true, beq_iff_eq] at h
  simp [isStray, h.1]

theorem filter_issue?_unmatched (text : Text) (o : TokenAt) :
    (o.issue? text).filter (·.issue = .unmatchedClosingBrace) =
      if o.isStray then
        some ⟨text.lineRange (text.lineOf o.token.span.start), .unmatchedClosingBrace⟩
      else none := by
  rw [issue?_eq]
  by_cases hnested : o.opensNested = true
  · simp [hnested, isStray_of_opensNested hnested]
  · by_cases hstray : o.isStray = true <;> simp [hnested, hstray]

theorem filter_issue?_nested (text : Text) (o : TokenAt) :
    (o.issue? text).filter (·.issue = .nestedBlock) =
      if o.opensNested then some ⟨text.range o.token.span, .nestedBlock⟩ else none := by
  rw [issue?_eq]
  by_cases hnested : o.opensNested = true
  · simp [hnested]
  · by_cases hstray : o.isStray = true <;> simp [hnested, hstray]

end TokenAt

/-- What is reported at the end of a text. -/
def unclosedAt (text : Text) (depth : Nat) : List Diagnostic :=
  if 0 < depth then [⟨text.lineRange (text.lineCount - 1), .unclosedBrace⟩] else []

/-- **Each token is reported on its own,** and what is open at the end comes last. -/
theorem braceDiagnosticsFrom_eq (text : Text) (before ts : List Token) :
    braceDiagnosticsFrom text (depthOf before) ts =
      (occurrencesFrom before ts).filterMap (TokenAt.issue? text) ++
        unclosedAt text (depthOf (before ++ ts)) := by
  induction ts generalizing before with
  | nil => simp [occurrencesFrom, braceDiagnosticsFrom, unclosedAt]
  | cons t ts ih =>
    have hdepth : depthAfter (depthOf before) t = depthOf (before ++ [t]) := by simp [depthOf]
    have hissue : braceIssue? text (depthOf before) t = TokenAt.issue? text ⟨before, t, ts⟩ := rfl
    rw [braceDiagnosticsFrom, hdepth, ih, occurrencesFrom, List.filterMap_cons, List.append_assoc,
      List.singleton_append, hissue]
    cases TokenAt.issue? text ⟨before, t, ts⟩ <;> rfl

theorem braceDiagnostics_eq (text : Text) :
    braceDiagnostics text =
      (occurrencesFrom [] (tokens text)).filterMap (TokenAt.issue? text) ++
        unclosedAt text (depthOf (tokens text)) :=
  braceDiagnosticsFrom_eq text [] (tokens text)

/-- The reports of one kind are those of the tokens that are reported for it. -/
theorem filter_braceDiagnostics (text : Text) {issue : Issue} (hissue : issue ≠ .unclosedBrace)
    {p : TokenAt → Bool} {report : TokenAt → Diagnostic}
    (h : ∀ o : TokenAt, (o.issue? text).filter (·.issue = issue) =
      if p o then some (report o) else none) :
    (braceDiagnostics text).filter (·.issue = issue) =
      ((occurrencesFrom [] (tokens text)).filter p).map report := by
  have hlast : (unclosedAt text (depthOf (tokens text))).filter (·.issue = issue) = [] := by
    unfold unclosedAt
    split
    · simp [hissue.symm]
    · rfl
  rw [braceDiagnostics_eq, List.filter_append, hlast, List.append_nil, List.filter_filterMap,
    ← List.filterMap_eq_map, List.filterMap_filter]
  congr 1
  funext o
  exact h o

/-! ## Marks in the text -/

/-- A mark among the tokens is a character of the text. -/
theorem exists_mark {text : Text} {t : Token} (h : t ∈ tokens text) {m : Mark}
    (hk : t.kind = .mark m) :
    ∃ a b, text = a ++ m.char :: b ∧ t.span = ⟨a.byteLength, a.byteLength + 1⟩ := by
  obtain ⟨u, p, v, hsplit, hkind, hspan⟩ := piece_of_mem_tokens h
  obtain rfl : p = .mark m := by
    rw [hk] at hkind
    cases p with
    | mark m' => obtain rfl := TokenKind.mark.inj (Option.some.inj hkind); rfl
    | blank | blockComment | lineComment | quoted | word => simp [Piece.tokenKind?] at hkind
  have hsize : (Piece.mark m).size = 1 := m.utf8Size_char
  rw [hsize] at hspan
  exact ⟨Piece.allChars u, Piece.allChars v, Text.text_of_split hsplit, hspan⟩

theorem token_mem {text : Text} {o : TokenAt} (h : o ∈ occurrencesFrom [] (tokens text)) :
    o.token ∈ tokens text := by
  obtain ⟨front, -, htokens⟩ := mem_occurrencesFrom h
  rw [htokens]
  simp

/-- A diagnostic reports an unmatched brace: it covers the whole line that holds the brace. -/
structure ReportedOnLine (text : Text) (o : TokenAt) (d : Diagnostic) : Prop where
  issue_eq : d.issue = .unmatchedClosingBrace
  line : ∃ index line, text.IsLineRange index line d.range ∧ line.span.holds o.token.span = true
  start_inside : d.range.holds (text.position o.token.span.start) = true
  stop_inside : d.range.holds (text.position o.token.span.stop) = true

theorem reportedOnLine {text : Text} {o : TokenAt} (ho : o ∈ occurrencesFrom [] (tokens text))
    (hstray : o.isStray = true) :
    ReportedOnLine text o
      ⟨text.lineRange (text.lineOf o.token.span.start), .unmatchedClosingBrace⟩ := by
  obtain ⟨a, b, rfl, hspan⟩ := exists_mark (token_mem ho) (TokenAt.kind_of_isStray hstray)
  obtain ⟨line, before, after, u, v, hat, ha, hline⟩ :=
    Text.exists_line_around a b (c := '\x7d') (by decide) (by decide)
  have hstart : o.token.span.start = line.start + u.byteLength := by
    rw [hspan, ha, Text.byteLength_append, hat.start_eq]
  have hstop : o.token.span.stop = line.start + Text.byteLength (u ++ ['\x7d']) := by
    rw [hspan, ha, Text.byteLength_append, Text.byteLength_append, hat.start_eq, Nat.add_assoc]
    rfl
  have hline' : line.chars = u ++ ['\x7d'] ++ v := by simp [hline]
  have hindex : Text.lineOf (a ++ '\x7d' :: b) o.token.span.start = a.count '\n' := by
    rw [hspan, Text.lineOf_append]
  have hrange := hat.isLineRange
  rw [← hindex] at hrange
  refine ⟨rfl, ⟨_, line, hrange, ?_⟩, ?_, ?_⟩
  · rw [Span.holds_iff, hstart, hstop]
    dsimp only [Fragment.span, Fragment.stop]
    rw [hline', Text.byteLength_append _ v]
    omega
  · rw [hstart]
    exact hstart ▸ hrange.holds_position hline
  · rw [hstop]
    exact hrange.holds_position hline'

/-- What is open at the end is the only report without a token. -/
theorem braceDiagnostics_issue {text : Text} {d : Diagnostic} (h : d ∈ braceDiagnostics text) :
    d.issue = .unmatchedClosingBrace ∨ d.issue = .nestedBlock ∨ d.issue = .unclosedBrace := by
  rw [braceDiagnostics_eq] at h
  rcases List.mem_append.1 h with h | h
  · obtain ⟨o, -, ho⟩ := List.mem_filterMap.1 h
    rcases braceIssue?_eq_some ho with h | h
    · exact .inr (.inl h)
    · exact .inl h
  · unfold unclosedAt at h
    split at h
    · rw [List.mem_singleton.1 h]
      exact .inr (.inr rfl)
    · simp at h

/-- A diagnostic stands at the range of a span. -/
theorem exists_span_of_mem {text : Text} {d : Diagnostic} (h : d ∈ braceDiagnostics text) :
    ∃ span : Span, span.start ≤ span.stop ∧ d.range = text.range span := by
  have hline : ∀ index, index < text.lineCount → ∃ span : Span, span.start ≤ span.stop ∧
      text.lineRange index = text.range span := by
    intro index hindex
    obtain ⟨line, before, after, -, hat⟩ := Text.exists_line hindex
    exact ⟨line.span, Nat.le_add_right .., hat.lineRange_eq⟩
  rw [braceDiagnostics_eq] at h
  rcases List.mem_append.1 h with h | h
  · obtain ⟨o, ho, hissue⟩ := List.mem_filterMap.1 h
    rw [TokenAt.issue?_eq] at hissue
    split at hissue
    · rw [← Option.some.inj hissue]
      exact ⟨_, Nat.le_of_lt (tokens_span (token_mem ho)).1, rfl⟩
    · obtain ⟨hstray, hissue⟩ := Option.ite_none_right_eq_some.1 hissue
      obtain ⟨a, b, htext, hspan⟩ := exists_mark (token_mem ho) (TokenAt.kind_of_isStray hstray)
      rw [← Option.some.inj hissue]
      refine hline _ ?_
      rw [hspan, Text.lineCount_eq]
      conv => lhs; rw [htext, Text.lineOf_append]
      rw [htext, List.count_append]
      omega
  · unfold unclosedAt at h
    split at h
    · rw [List.mem_singleton.1 h]
      have hcount := Text.lineCount_eq text
      exact hline _ (by omega)
    · simp at h

/-! ## The balance of the braces -/

/-- The brace that a token is. -/
def Token.brace? (t : Token) : Option Mark :=
  match t.kind with
  | .mark .openBrace => some .openBrace
  | .mark .closeBrace => some .closeBrace
  | .mark .semicolon | .text => none

/-- The braces among tokens. -/
def bracesOf (ts : List Token) : List Mark := ts.filterMap Token.brace?

/-- Pairs of an opening brace and the closing brace right behind it. -/
def bracePairs (n : Nat) : List Mark := (List.replicate n [.openBrace, .closeBrace]).flatten

section
variable {t : Token} (ts : List Token)

theorem bracesOf_open (hk : t.kind = .mark .openBrace) :
    bracesOf (t :: ts) = .openBrace :: bracesOf ts := by
  simp [bracesOf, Token.brace?, hk]

theorem bracesOf_close (hk : t.kind = .mark .closeBrace) :
    bracesOf (t :: ts) = .closeBrace :: bracesOf ts := by
  simp [bracesOf, Token.brace?, hk]

theorem bracesOf_other (h : t.brace? = none) : bracesOf (t :: ts) = bracesOf ts := by
  simp [bracesOf, h]

end

theorem brace_cases (t : Token) :
    t.kind = .mark .openBrace ∨ t.kind = .mark .closeBrace ∨ t.brace? = none := by
  unfold Token.brace?
  split <;> simp_all

/-- Tokens that are no braces neither change the depth nor are reported. -/
theorem depthAfter_other {t : Token} (h : t.brace? = none) (depth : Nat) :
    depthAfter depth t = depth ∧ ∀ text, braceIssue? text depth t = none := by
  unfold Token.brace? at h
  split at h
  · simp at h
  · simp at h
  · next hk => simp [depthAfter, braceIssue?, hk]
  · next hk => simp [depthAfter, braceIssue?, hk]

/-- **The balance:** braces are opened and closed, unmatched, or left open. -/
theorem openBraces_add_stray (before ts : List Token) :
    depthOf before + (bracesOf ts).count .openBrace +
        ((occurrencesFrom before ts).filter TokenAt.isStray).length =
      (bracesOf ts).count .closeBrace + depthOf (before ++ ts) := by
  induction ts generalizing before with
  | nil => simp [bracesOf, occurrencesFrom]
  | cons t ts ih =>
    have ih := ih (before ++ [t])
    have hdepth : depthOf (before ++ [t]) = depthAfter (depthOf before) t := by simp [depthOf]
    rw [List.append_assoc, List.singleton_append, hdepth] at ih
    rw [occurrencesFrom]
    rcases brace_cases t with hk | hk | hk
    · have hmatched : TokenAt.isStray ⟨before, t, ts⟩ = false := by simp [TokenAt.isStray, hk]
      simp only [depthAfter, hk] at ih
      rw [bracesOf_open ts hk, List.filter_cons_of_neg (by simp [hmatched])]
      simp only [List.count_cons_self,
        List.count_cons_of_ne (by decide : Mark.openBrace ≠ .closeBrace)]
      omega
    · simp only [depthAfter, hk] at ih
      rw [bracesOf_close ts hk, List.count_cons_self,
        List.count_cons_of_ne (by decide : Mark.closeBrace ≠ .openBrace)]
      -- At depth zero the brace is unmatched, and the depth stays there.
      by_cases hd : depthOf before = 0
      · rw [List.filter_cons_of_pos (by simp [TokenAt.isStray, hk, hd]), List.length_cons]
        omega
      · rw [List.filter_cons_of_neg (by simp [TokenAt.isStray, hd])]
        omega
    · have hmatched : TokenAt.isStray ⟨before, t, ts⟩ = false := by
        have hclose : t.kind ≠ .mark .closeBrace := fun hclose => by
          simp [Token.brace?, hclose] at hk
        simp [TokenAt.isStray, hclose]
      rw [(depthAfter_other hk _).1] at ih
      rw [bracesOf_other ts hk, List.filter_cons_of_neg (by simp [hmatched])]
      exact ih

theorem bracePairs_succ (n : Nat) :
    bracePairs (n + 1) = .openBrace :: .closeBrace :: bracePairs n := rfl

/-- Pairs that begin with an opening brace go on with a closing one. -/
theorem exists_bracePairs_open {ms : List Mark} :
    (∃ n, .openBrace :: ms = bracePairs n) ↔ ∃ n, ms = .closeBrace :: bracePairs n := by
  constructor
  · rintro ⟨n, hn⟩
    cases n with
    | zero => simp [bracePairs] at hn
    | succ n => exact ⟨n, (List.cons.inj hn).2⟩
  · rintro ⟨n, rfl⟩
    exact ⟨n + 1, rfl⟩

theorem not_bracePairs_close {ms : List Mark} : ¬ ∃ n, .closeBrace :: ms = bracePairs n := by
  rintro ⟨n, hn⟩
  cases n with
  | zero => simp [bracePairs] at hn
  | succ n => simp [bracePairs_succ] at hn

/-- **No brace is reported** exactly when the braces come in pairs.  At depth one, the closing
    brace of a pair is yet to come. -/
theorem braceDiagnosticsFrom_eq_nil (text : Text) (ts : List Token) :
    (braceDiagnosticsFrom text 0 ts = [] ↔ ∃ n, bracesOf ts = bracePairs n) ∧
      (braceDiagnosticsFrom text 1 ts = [] ↔
        ∃ n, bracesOf ts = .closeBrace :: bracePairs n) := by
  induction ts with
  | nil =>
    refine ⟨iff_of_true rfl ⟨0, rfl⟩, iff_of_false (by simp [braceDiagnosticsFrom]) ?_⟩
    simp [bracesOf]
  | cons t ts ih =>
    rw [braceDiagnosticsFrom, braceDiagnosticsFrom]
    rcases brace_cases t with hk | hk | hk
    · rw [bracesOf_open ts hk, exists_bracePairs_open]
      simp only [braceIssue?, depthAfter, hk]
      exact ⟨ih.2, iff_of_false (by simp) (by simp)⟩
    · rw [bracesOf_close ts hk]
      simp only [braceIssue?, depthAfter, hk]
      refine ⟨iff_of_false (by simp) not_bracePairs_close, ?_⟩
      simpa using ih.1
    · rw [bracesOf_other ts hk, (depthAfter_other hk 0).1, (depthAfter_other hk 1).1,
        (depthAfter_other hk 0).2, (depthAfter_other hk 1).2]
      exact ih

/-! ## All braces of a text -/

/-- What the check of a text's braces reports. -/
structure BracesExact (text : Text) : Prop where
  /-- Each closing brace at depth zero, by the whole line that holds it. -/
  unmatched : List.Forall₂ (ReportedOnLine text)
    ((occurrencesFrom [] (tokens text)).filter TokenAt.isStray)
    ((braceDiagnostics text).filter (·.issue = .unmatchedClosingBrace))
  /-- Each opening brace at depth one, by its own range. -/
  nested : (braceDiagnostics text).filter (·.issue = .nestedBlock) =
    ((occurrencesFrom [] (tokens text)).filter TokenAt.opensNested).map fun o =>
      ⟨text.range o.token.span, .nestedBlock⟩
  /-- What is open at the end, -/
  unclosed_iff : (∃ d ∈ braceDiagnostics text, d.issue = .unclosedBrace) ↔
    0 < depthOf (tokens text)
  /-- once, behind all others and by the last line. -/
  unclosed_last : ∀ front d behind, braceDiagnostics text = front ++ d :: behind →
    d.issue = .unclosedBrace →
      behind = [] ∧ ∃ line, text.IsLineRange (text.count '\n') line d.range
  /-- Nothing else. -/
  others : ∀ d ∈ braceDiagnostics text, d.issue = .unmatchedClosingBrace ∨
    d.issue = .nestedBlock ∨ d.issue = .unclosedBrace
  balance : (bracesOf (tokens text)).count .openBrace +
      ((braceDiagnostics text).filter (·.issue = .unmatchedClosingBrace)).length =
    (bracesOf (tokens text)).count .closeBrace + depthOf (tokens text)
  empty_iff : braceDiagnostics text = [] ↔ ∃ n, bracesOf (tokens text) = bracePairs n
  /-- Lines and columns are numbers of 32 bits. -/
  fits : ∀ d ∈ braceDiagnostics text, d.range.start.Fits ∧ d.range.stop.Fits

theorem filter_unmatched (text : Text) :
    (braceDiagnostics text).filter (·.issue = .unmatchedClosingBrace) =
      ((occurrencesFrom [] (tokens text)).filter TokenAt.isStray).map fun o =>
        ⟨text.lineRange (text.lineOf o.token.span.start), .unmatchedClosingBrace⟩ :=
  filter_braceDiagnostics text (by simp) (TokenAt.filter_issue?_unmatched text)

theorem unclosedAt_split {text : Text} {depth : Nat} {m behind : List Diagnostic} {d : Diagnostic}
    (h : unclosedAt text depth = m ++ d :: behind) :
    d.range = text.lineRange (text.lineCount - 1) ∧ behind = [] := by
  unfold unclosedAt at h
  split at h
  · obtain ⟨-, h⟩ | ⟨-, h⟩ := List.append_eq_singleton_iff.1 h.symm
    · rw [(List.cons.inj h).1]
      exact ⟨rfl, (List.cons.inj h).2⟩
    · simp at h
  · simp at h

/-- What is left open is reported behind all tokens. -/
theorem unclosed_last {text : Text} {front behind : List Diagnostic} {d : Diagnostic}
    (heq : braceDiagnostics text = front ++ d :: behind) (hissue : d.issue = .unclosedBrace) :
    behind = [] ∧ ∃ line, text.IsLineRange (text.count '\n') line d.range := by
  have htoken : ∀ e ∈ (occurrencesFrom [] (tokens text)).filterMap (TokenAt.issue? text),
      e.issue ≠ .unclosedBrace := by
    intro e he
    obtain ⟨o, -, ho⟩ := List.mem_filterMap.1 he
    rcases braceIssue?_eq_some ho with h | h
    · simp [h]
    · simp [h]
  have hlast : ∃ line, text.IsLineRange (text.count '\n') line
      (text.lineRange (text.lineCount - 1)) := by
    have hcount := Text.lineCount_eq text
    have hindex : text.count '\n' < text.lineCount := by omega
    obtain ⟨line, before, after, -, hat⟩ := Text.exists_line hindex
    rw [hcount]
    exact ⟨line, hat.isLineRange⟩
  rw [braceDiagnostics_eq] at heq
  -- The diagnostic is no report of a token, so it is the one behind them.
  rcases List.append_eq_append_iff.1 heq with ⟨m, -, hm⟩ | ⟨m, hm, hd⟩
  · obtain ⟨hd, hbehind⟩ := unclosedAt_split hm
    exact ⟨hbehind, hd ▸ hlast⟩
  · cases m with
    | nil =>
      obtain ⟨hd, hbehind⟩ := unclosedAt_split (m := []) hd.symm
      exact ⟨hbehind, hd ▸ hlast⟩
    | cons e m =>
      obtain ⟨rfl, -⟩ := List.cons.inj hd
      exact absurd hissue (htoken d (hm ▸ by simp))

/-- **The check of braces is exact:** it reports the unmatched, the nested and the unclosed
    braces of a text, and nothing else. -/
theorem braceDiagnostics_exact {text : Text} (hsize : text.byteLength < UInt32.size) :
    BracesExact text where
  unmatched := by
    rw [filter_unmatched, List.forall₂_map_right_iff, List.forall₂_same]
    intro o ho
    obtain ⟨ho, hstray⟩ := List.mem_filter.1 ho
    exact reportedOnLine ho hstray
  nested := filter_braceDiagnostics text (by simp) (TokenAt.filter_issue?_nested text)
  unclosed_iff := unclosedBrace_iff text
  unclosed_last _ _ _ := unclosed_last
  others _ := braceDiagnostics_issue
  balance := by
    have h := openBraces_add_stray [] (tokens text)
    rw [filter_unmatched, List.length_map]
    simpa [depthOf] using h
  empty_iff := (braceDiagnosticsFrom_eq_nil text (tokens text)).1
  fits := by
    intro d hd
    obtain ⟨span, -, hrange⟩ := exists_span_of_mem hd
    rw [hrange]
    exact ⟨Text.position_fits hsize _, Text.position_fits hsize _⟩

/-- Two lines with each of the reports: a stray brace behind a letter of two bytes, a nested
    block, and a brace left open. -/
theorem braceDiagnostics_exact_returns :
    Text.byteLength "é\x7d\r\na\x7bb\x7b\x7d\x7d\x7b".toList < UInt32.size ∧
      BracesExact "é\x7d\r\na\x7bb\x7b\x7d\x7d\x7b".toList ∧
      braceDiagnostics "é\x7d\r\na\x7bb\x7b\x7d\x7d\x7b".toList =
        [⟨⟨⟨0, 0⟩, ⟨0, 2⟩⟩, .unmatchedClosingBrace⟩, ⟨⟨⟨1, 3⟩, ⟨1, 4⟩⟩, .nestedBlock⟩,
          ⟨⟨⟨1, 0⟩, ⟨1, 7⟩⟩, .unclosedBrace⟩] :=
  ⟨by decide, braceDiagnostics_exact (by decide), by decide +kernel⟩

end StyleServer
