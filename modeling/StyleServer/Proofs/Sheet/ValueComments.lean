/-
  The comments of a value are those of the text, seen from the value.

  * `Heralded`: a line feed inside the value stands before a line comment, with nothing but
    blanks and comments between them.
  * `Sheet.parse_valueComments`: where the colon stands in a word, a declaration finds the
    comments of the text in its value exactly when all line comments there are heralded; then
    its value and its references are free of them.
  * `Sheet.value_of_comment`: a line comment right behind the colon's line becomes the value.
-/
import StyleServer.Proofs.Sheet.CommentSpans
import Mathlib.Data.List.Induction

namespace StyleServer

open ValuePart (commentSpans)

/-! ## Heralded line comments -/

/-- Behind the pieces `front` of a text, a line begins as seen from a value that begins at
    `start`: its line feed stands in the value, ends no open string, and has only blanks and
    comments behind it. -/
def Heralded (start : Nat) (front : List Piece) : Prop :=
  ∃ before feed gap, front = before ++ feed :: gap ∧
    start ≤ Text.byteLength (Piece.allChars before) ∧
    (feed.isLineComment = true ∨ feed = .blank '\n' ∧ ∀ p ∈ before.getLast?, p.isOpen = false) ∧
    ∀ p ∈ gap, p.isText = false

theorem heralded_append_singleton {start : Nat} {front : List Piece} {p : Piece} :
    Heralded start (front ++ [p]) ↔ p.isText = false ∧ (Heralded start front ∨
      start ≤ Text.byteLength (Piece.allChars front) ∧
        (p.isLineComment = true ∨ p = .blank '\n' ∧ ∀ q ∈ front.getLast?, q.isOpen = false)) := by
  constructor
  · rintro ⟨before, feed, gap, heq, hstart, hfeed, hgap⟩
    rcases List.eq_nil_or_concat gap with rfl | ⟨gap, q, rfl⟩
    · obtain ⟨rfl, hp⟩ := List.append_inj' heq rfl
      obtain rfl := List.singleton_inj.1 hp
      refine ⟨?_, Or.inr ⟨hstart, hfeed⟩⟩
      rcases hfeed with hline | ⟨rfl, -⟩
      · cases p with
        | lineComment => rfl
        | blank | blockComment | mark | quoted | word => simp [Piece.isLineComment] at hline
      · rfl
    · rw [List.concat_eq_append, ← List.cons_append, ← List.append_assoc] at heq
      obtain ⟨rfl, hp⟩ := List.append_inj' heq rfl
      obtain rfl := List.singleton_inj.1 hp
      exact ⟨hgap p (by simp),
        Or.inl ⟨before, feed, gap, rfl, hstart, hfeed, fun q hq => hgap q (by simp [hq])⟩⟩
  · rintro ⟨hp, ⟨before, feed, gap, rfl, hstart, hfeed, hgap⟩ | ⟨hstart, hfeed⟩⟩
    · refine ⟨before, feed, gap ++ [p], by simp, hstart, hfeed, fun q hq => ?_⟩
      rcases List.mem_append.1 hq with hq | hq
      · exact hgap q hq
      · rw [List.mem_singleton.1 hq]
        exact hp
    · exact ⟨front, p, [], rfl, hstart, hfeed, by simp⟩

namespace ValuePlace

theorem afterAll_append_singleton (s : ValuePlace) (ps : List Piece) (p : Piece) :
    s.afterAll (ps ++ [p]) = (s.afterAll ps).after p := by
  simp [afterAll]

/-- A string is open behind pieces when the last of them is. -/
theorem inString_afterAll {front : List Piece} (hopen : ∀ p ∈ front.getLast?, p.isOpen = false)
    (ps : List Piece) : (origin.afterAll ps).inString = false ↔
      ∀ p ∈ (front ++ ps).getLast?, p.isOpen = false := by
  rcases List.eq_nil_or_concat ps with rfl | ⟨ps, p, rfl⟩
  · simpa [origin, afterAll] using hopen
  · have hp : ((origin.afterAll ps).after p).inString = p.isOpen := by cases p <;> rfl
    rw [List.concat_eq_append, afterAll_append_singleton, hp, ← List.append_assoc]
    simp

/-- No line begins inside a string. -/
theorem lineStart_of_inString {ps : List Piece} (h : (origin.afterAll ps).inString = true) :
    (origin.afterAll ps).lineStart = false := by
  rcases List.eq_nil_or_concat ps with rfl | ⟨ps, p, rfl⟩
  · rfl
  · rw [List.concat_eq_append, afterAll_append_singleton] at h ⊢
    cases p with
    | quoted => rfl
    | blank | blockComment | lineComment | mark | word => simp [after] at h

/-- **The second search sees a line begin where one is heralded.**  The pieces `front` reach to
    the start of the value, or to the end of the word that it begins in. -/
theorem heralded_iff {start : Nat} {front ps : List Piece} (hfront : ¬ Heralded start front)
    (hle : start ≤ Text.byteLength (Piece.allChars front))
    (hopen : ∀ p ∈ front.getLast?, p.isOpen = false) (hu : Piece.Unmarked ps) :
    Heralded start (front ++ ps) ↔ (origin.afterAll ps).lineStart = true := by
  induction ps using List.reverseRecOn with
  | nil => simpa [origin, afterAll] using hfront
  | append_singleton ps p ih =>
    have ih := ih fun q hq => hu q (List.mem_append_left _ hq)
    have hle' : start ≤ Text.byteLength (Piece.allChars (front ++ ps)) := by
      rw [Piece.allChars_append, Text.byteLength_append]
      exact Nat.le_trans hle (Nat.le_add_right ..)
    rw [← List.append_assoc, heralded_append_singleton, ih, ← inString_afterAll hopen,
      afterAll_append_singleton]
    simp only [hle', true_and]
    cases p with
    | blank c =>
      cases hin : (origin.afterAll ps).inString with
      | true => simp [after, hin, lineStart_of_inString hin, Piece.isLineComment]
      | false => simp [after, hin, Piece.isText, Piece.isLineComment]
    | blockComment => simp [after, Piece.isText, Piece.isLineComment]
    | lineComment => simp [after, Piece.isText, Piece.isLineComment]
    | mark m => exact absurd (hu (.mark m) (by simp)) (by simp [Piece.mark?])
    | quoted | word => simp [after, Piece.isText]

end ValuePlace

theorem ReachesTo.not_heralded {front : List Piece} {before word : Text}
    (h : ReachesTo front before word) : ¬ Heralded (Text.byteLength before) front := by
  rintro ⟨b, feed, gap, heq, hle, -⟩
  exact absurd (h.lt_start heq) (Nat.not_lt.2 hle)

/-! ## The comments of a value -/

/-- All line comments of the text that begin in the span are heralded in it. -/
def Text.HeraldsLines (text : Text) (span : Span) : Prop :=
  ∀ before p behind, text.pieces = before ++ p :: behind → p.isLineComment = true →
    span.covers (Text.byteLength (Piece.allChars before)) = true → Heralded span.start before

theorem Piece.isComment_of_isLineComment {p : Piece} (h : p.isLineComment = true) :
    p.isComment = true := by
  cases p with
  | lineComment => rfl
  | blank | blockComment | mark | quoted | word => simp [isLineComment] at h

namespace Text.ValueAt

variable {text : Text} {value : Fragment} {front rest after : List Piece}
  {before word blanks : Text}

theorem stop_le (h : text.ValueAt value front rest after before word blanks) :
    value.stop ≤ Text.byteLength (Piece.allChars (front ++ rest)) := by
  have hsize := congrArg Text.byteLength h.chars_eq
  rw [Piece.allChars_append, h.reaches.allChars_eq]
  simp only [Fragment.stop, h.start_eq, Text.byteLength_append] at hsize ⊢
  omega

/-- The second search begins at the pieces behind the first word. -/
theorem commentSpans_eq (h : text.ValueAt value front rest after before word blanks) :
    commentSpans value.start (valueParts value.chars) =
      (ValuePlace.origin.read (Text.byteLength (Piece.allChars front))
        (Piece.allChars rest)).map (Span.clip value.stop) := by
  have hword := commentSpans_word (h.reaches.passesOver h.pieces_eq) value.start
  have hfront : value.start + Text.byteLength word = Text.byteLength (Piece.allChars front) := by
    rw [h.start_eq, h.reaches.allChars_eq, Text.byteLength_append]
  rw [valueParts, commentSpans_trim h.blank, h.chars_eq, hword, hfront]
  rfl

/-- What begins in the value is one of its pieces. -/
theorem rest_of_covers (h : text.ValueAt value front rest after before word blanks)
    {x y : List Piece} {p : Piece} (heq : text.pieces = x ++ p :: y)
    (hcovers : value.span.covers (Text.byteLength (Piece.allChars x)) = true) :
    ∃ x' y', x = front ++ x' ∧ rest = x' ++ p :: y' := by
  obtain ⟨hle, hlt⟩ := Span.covers_iff.1 hcovers
  have hsplit := heq.symm.trans h.pieces_eq
  rcases Nat.lt_or_ge (Text.byteLength (Piece.allChars x))
    (Text.byteLength (Piece.allChars front)) with hx | hx
  · obtain ⟨m, hm, -⟩ := Piece.split_behind hsplit hx
    exact absurd (h.reaches.lt_start hm) (Nat.not_lt.2 (h.start_eq ▸ hle))
  · obtain ⟨c, cs, hcut⟩ := Text.cutsOff_of_split heq
    have hstop := Nat.lt_of_lt_of_le hlt h.stop_le
    obtain ⟨x', y', hx', hrest, -⟩ := Piece.split_inside hsplit (s := []) rfl hcut.chars_ne_nil
      (by simpa using hx) (by simpa using hstop)
    exact ⟨x', y', hx', hrest⟩

theorem pieces_split (h : text.ValueAt value front rest after before word blanks)
    {x y : List Piece} {p : Piece} (heq : rest = x ++ p :: y) :
    text.pieces = (front ++ x) ++ p :: (y ++ after) := by
  rw [h.pieces_eq, heq]
  simp

/-- A comment among the pieces of the value begins in it, and not among the blanks behind. -/
theorem covers_of_rest (h : text.ValueAt value front rest after before word blanks)
    {x y : List Piece} {p : Piece} (heq : rest = x ++ p :: y) (hp : p.isComment = true) :
    value.span.covers (Text.byteLength (Piece.allChars (front ++ x))) = true := by
  have hsize : Text.byteLength (Piece.allChars (front ++ x)) =
      value.start + Text.byteLength (word ++ Piece.allChars x) := by
    rw [Piece.allChars_append, h.reaches.allChars_eq, h.start_eq, ← Text.byteLength_append,
      List.append_assoc]
  rw [hsize]
  refine Span.covers_iff.2 ⟨Nat.le_add_right .., Nat.lt_of_not_le fun hle => ?_⟩
  have hsplit : value.chars ++ blanks = (word ++ Piece.allChars x) ++
      (p.chars ++ Piece.allChars y) := by
    rw [h.chars_eq, heq]
    simp
  obtain ⟨m, -, hm⟩ := Text.append_split hsplit (Nat.le_of_add_le_add_left hle)
  obtain ⟨inside, hchars⟩ := Text.comment_chars (h.pieces_split heq) hp
  have hslash : '/' ∈ blanks := by
    rw [hm, hchars]
    simp
  exact absurd (h.blank '/' hslash) (by decide)

/-- The comments that begin in the value are those of its pieces. -/
theorem commentsIn_eq (h : text.ValueAt value front rest after before word blanks) :
    text.commentsIn value.span =
      (commentsFrom (Text.byteLength (Piece.allChars front)) rest).map (Span.clip value.stop) := by
  -- Comments before the value begin too early, and those behind it too late.
  have hfront : (commentsFrom 0 front).filter (fun k => value.span.covers k.start) = [] := by
    refine List.filter_eq_nil_iff.2 fun k hk hcovers => ?_
    obtain ⟨x, p, y, heq, hp, hstart⟩ := mem_commentsFrom hk
    rw [hstart, Nat.zero_add, Span.covers_iff] at hcovers
    exact absurd (h.reaches.lt_start heq) (Nat.not_lt.2 (h.start_eq ▸ hcovers.1))
  have hrest : ∀ k ∈ commentsFrom (Text.byteLength (Piece.allChars front)) rest,
      value.span.covers k.start = true := by
    intro k hk
    obtain ⟨x, p, y, heq, hp, hstart⟩ := mem_commentsFrom hk
    rw [hstart, ← Text.byteLength_append, ← Piece.allChars_append]
    exact h.covers_of_rest heq hp
  have hafter : (commentsFrom (Text.byteLength (Piece.allChars (front ++ rest))) after).filter
      (fun k => value.span.covers k.start) = [] := by
    refine List.filter_eq_nil_iff.2 fun k hk hcovers => ?_
    obtain ⟨x, p, y, heq, hp, hstart⟩ := mem_commentsFrom hk
    rw [hstart, Span.covers_iff] at hcovers
    have hstop := h.stop_le
    exact absurd hcovers.2 (Nat.not_lt.2 (Nat.le_trans hstop (Nat.le_add_right ..)))
  rw [Text.commentsIn, h.pieces_eq, ← List.append_assoc, commentsFrom_append, commentsFrom_append,
    Nat.zero_add, Nat.zero_add, List.filter_append, List.filter_append, hfront, hafter,
    List.filter_eq_self.2 hrest]
  simp [Fragment.span]

/-- The second search sees the lines begin on which line comments stand when these are
    heralded. -/
theorem sees_iff (h : text.ValueAt value front rest after before word blanks) :
    ValuePlace.origin.Sees rest ↔ text.HeraldsLines value.span := by
  have hle : value.start ≤ Text.byteLength (Piece.allChars front) := by
    rw [h.start_eq, h.reaches.allChars_eq, Text.byteLength_append]
    exact Nat.le_add_right ..
  have hfront : ¬ Heralded value.start front := by
    rw [h.start_eq]
    exact h.reaches.not_heralded
  have hheralded : ∀ x y, rest = x ++ y → (Heralded value.start (front ++ x) ↔
      (ValuePlace.origin.afterAll x).lineStart = true) := fun x y heq =>
    ValuePlace.heralded_iff hfront hle h.reaches.not_open
      fun p hp => h.unmarked p (by rw [heq]; exact List.mem_append_left _ hp)
  rw [ValuePlace.sees_iff]
  constructor
  · intro hsees x p y heq hp hcovers
    obtain ⟨x', y', rfl, hrest⟩ := h.rest_of_covers heq hcovers
    exact (hheralded x' _ hrest).2 (hsees x' p y' hrest hp)
  · intro hlines x p y heq hp
    have hcovers := h.covers_of_rest heq (Piece.isComment_of_isLineComment hp)
    exact (hheralded x _ heq).1 (hlines _ p _ (h.pieces_split heq) hp hcovers)

/-- **The second search finds the comments of the text in a value** exactly when the line
    comments there are heralded. -/
theorem comments_iff (h : text.ValueAt value front rest after before word blanks) :
    commentSpans value.start (valueParts value.chars) = text.commentsIn value.span ↔
      text.HeraldsLines value.span := by
  have hat : ValuePlace.origin.At (Place.origin.afterAll front) rest :=
    ⟨h.inside, by simp [ValuePlace.origin], by simp [ValuePlace.origin]⟩
  have hpieces := Text.piecesFrom_split h.pieces_eq
  obtain ⟨hfind, hsee⟩ := ValuePlace.read_pieces hpieces h.unmarked hat
    (Text.byteLength (Piece.allChars front))
  have hstart : ∀ ks : List Span, (ks.map (Span.clip value.stop)).map Span.start =
      ks.map Span.start := fun ks => by simp [Span.clip]
  rw [h.commentSpans_eq, h.commentsIn_eq, ← h.sees_iff]
  refine ⟨fun heq => hsee ?_, fun hsees => by rw [hfind hsees]⟩
  rw [← hstart, heq, hstart]

end Text.ValueAt

/-- Nothing begins in an empty value. -/
theorem Text.comments_iff_of_empty (text : Text) {value : Fragment} (h : value.chars = []) :
    commentSpans value.start (valueParts value.chars) = text.commentsIn value.span ↔
      text.HeraldsLines value.span := by
  have hcovers : ∀ offset, value.span.covers offset = false := fun offset => by
    rw [← Bool.not_eq_true, Span.covers_iff]
    simp only [Fragment.span, Fragment.stop, h, Text.byteLength_nil]
    omega
  have hlines : text.HeraldsLines value.span := fun x p y _ _ hx => by simp [hcovers] at hx
  have hnone : text.commentsIn value.span = [] := by simp [Text.commentsIn, hcovers]
  rw [hnone, h]
  exact iff_of_true (by simp [valueParts, valuePartsFrom, ValuePart.commentSpans]) hlines

/-! ## What a value keeps -/

namespace Text

/-- The characters of a text at a byte offset that stand in none of the spans. -/
def outside (spans : List Span) (offset : Nat) : Text → Text
  | [] => []
  | c :: cs =>
    let rest := outside spans (offset + c.utf8Size) cs
    if spans.any (·.covers offset) then rest else c :: rest

/-- The lines of a text that are not blank, without blanks at their ends. -/
def tidied (text : Text) : Text :=
  let lines := (text.splitOn '\n').filter fun line => !line.all isBlank
  trim (['\n'].intercalate (lines.map trimEnd))

/-- A text without spans: what is left of it, put in order if anything is taken out. -/
def without (spans : List Span) (offset : Nat) (text : Text) : Text :=
  if spans.isEmpty then text else (outside spans offset text).tidied

theorem outside_append (spans : List Span) (offset : Nat) (a b : Text) :
    outside spans offset (a ++ b) =
      outside spans offset a ++ outside spans (offset + byteLength a) b := by
  induction a generalizing offset with
  | nil => rfl
  | cons c a ih =>
    simp only [List.cons_append, outside, ih, byteLength_cons, Nat.add_assoc]
    split
    · rfl
    · rfl

theorem outside_before {spans : List Span} {offset : Nat} {a : Text}
    (h : ∀ k ∈ spans, offset + byteLength a ≤ k.start) : outside spans offset a = a := by
  induction a generalizing offset with
  | nil => rfl
  | cons c a ih =>
    have hc := c.utf8Size_pos
    simp only [byteLength_cons] at h
    have hnone : spans.any (·.covers offset) = false := by
      rw [List.any_eq_false]
      intro k hk hcovers
      have := h k hk
      rw [Span.covers_iff] at hcovers
      omega
    rw [outside, hnone, ih fun k hk => Nat.add_assoc .. ▸ h k hk]
    rfl

theorem outside_of_mem {spans : List Span} {k : Span} (hk : k ∈ spans) {offset : Nat} {a : Text}
    (hstart : k.start ≤ offset) (hstop : offset + byteLength a ≤ k.stop) :
    outside spans offset a = [] := by
  induction a generalizing offset with
  | nil => rfl
  | cons c a ih =>
    have hc := c.utf8Size_pos
    rw [byteLength_cons] at hstop
    have hany : spans.any (·.covers offset) = true :=
      List.any_eq_true.2 ⟨k, hk, Span.covers_iff.2 ⟨hstart, by omega⟩⟩
    rw [outside, hany, ih (by omega) (by omega)]
    rfl

theorem outside_cons_behind {spans : List Span} {k : Span} {offset : Nat} (h : k.stop ≤ offset)
    (a : Text) : outside (k :: spans) offset a = outside spans offset a := by
  induction a generalizing offset with
  | nil => rfl
  | cons c a ih =>
    have hk : k.covers offset = false := by
      rw [← Bool.not_eq_true, Span.covers_iff]
      omega
    rw [outside, outside, List.any_cons, hk, Bool.false_or, ih (by omega)]

end Text

/-- What parts keep is what stands outside of their comments. -/
theorem outside_commentSpans (offset : Nat) (parts : List ValuePart) :
    Text.outside (commentSpans offset parts) offset (parts.flatMap ValuePart.chars) =
      parts.flatMap ValuePart.keptChars := by
  induction parts generalizing offset with
  | nil => rfl
  | cons part parts ih =>
    cases part with
    | kept cs =>
      have hkept : Text.outside (commentSpans (offset + Text.byteLength cs) parts) offset cs = cs :=
        Text.outside_before fun k hk => le_start_of_mem_commentSpans hk
      rw [List.flatMap_cons, ValuePart.chars, commentSpans_kept, Text.outside_append, hkept, ih]
      rfl
    | comment cs =>
      have hnone : Text.outside (⟨offset, offset + Text.byteLength cs⟩ ::
          commentSpans (offset + Text.byteLength cs) parts) offset cs = [] :=
        Text.outside_of_mem List.mem_cons_self (Nat.le_refl _) (Nat.le_refl _)
      have hbehind : ∀ a, Text.outside (⟨offset, offset + Text.byteLength cs⟩ ::
          commentSpans (offset + Text.byteLength cs) parts) (offset + Text.byteLength cs) a =
          Text.outside (commentSpans (offset + Text.byteLength cs) parts)
            (offset + Text.byteLength cs) a :=
        Text.outside_cons_behind (Nat.le_refl _)
      rw [List.flatMap_cons, ValuePart.chars, commentSpans_comment, Text.outside_append, hnone,
        hbehind, ih]
      rfl

theorem any_isComment (offset : Nat) (parts : List ValuePart) :
    parts.any ValuePart.isComment = !(commentSpans offset parts).isEmpty := by
  induction parts generalizing offset with
  | nil => rfl
  | cons part parts ih =>
    cases part with
    | kept cs =>
      rw [commentSpans_kept, ← ih]
      rfl
    | comment cs => rfl

/-- A value without its comments. -/
theorem withoutComments_eq (offset : Nat) (value : Text) :
    withoutComments value = value.without (commentSpans offset (valueParts value)) offset := by
  have hkept := outside_commentSpans offset (valueParts value)
  rw [show (valueParts value).flatMap ValuePart.chars = value from
    flatMap_chars_valuePartsFrom false value] at hkept
  rw [withoutComments, Text.without, any_isComment offset, hkept]
  cases (commentSpans offset (valueParts value)).isEmpty with
  | true => rfl
  | false => rfl

/-! ## Sheets -/

namespace Declaration

/-- The value of a declaration as written in the text. -/
def rawValue (text : Text) (d : Declaration) : Text := (Text.slice? text d.valueSpan).getD []

/-- The comments that reading a declaration finds in its value. -/
def valueComments (text : Text) (d : Declaration) : List Span :=
  commentSpans d.valueSpan.start (valueParts (d.rawValue text))

end Declaration

namespace Sheet

/-- **Both searches for comments agree inside a value** exactly when its line comments are
    heralded; then neither the value nor its references come from a comment. -/
theorem parse_valueComments {text : String} {d : Declaration} (hd : d ∈ (parse text).declarations)
    (hcolon : d.ColonInWord text.toList) :
    (d.valueComments text.toList = Text.commentsIn text.toList d.valueSpan ↔
        Text.HeraldsLines text.toList d.valueSpan) ∧
      (Text.HeraldsLines text.toList d.valueSpan →
        d.value = String.ofList ((d.rawValue text.toList).without
          (Text.commentsIn text.toList d.valueSpan) d.valueSpan.start) ∧
        ∀ r ∈ d.refs, ∀ k ∈ Text.commentsIn text.toList d.valueSpan, k.holds r.span = false) := by
  obtain ⟨f, hf, hd⟩ := declaration_origin hd
  obtain ⟨name, value, rfl, hin, hat⟩ := Declaration.exists_valueAt hf hd hcolon
  have hraw : (Declaration.ofParts name value).rawValue text.toList = value.chars := by
    rw [Declaration.rawValue, Declaration.ofParts, hin.slice?_span]
    rfl
  have hcomments : (Declaration.ofParts name value).valueComments text.toList =
      commentSpans value.start (valueParts value.chars) := by
    rw [Declaration.valueComments, hraw]
    rfl
  have hiff : commentSpans value.start (valueParts value.chars) =
      Text.commentsIn text.toList value.span ↔ Text.HeraldsLines text.toList value.span := by
    by_cases hne : value.chars = []
    · exact Text.comments_iff_of_empty _ hne
    · obtain ⟨front, rest, after, before, word, blanks, hvalue⟩ := hat hne
      exact hvalue.comments_iff
  rw [hcomments, hraw]
  refine ⟨hiff, fun hlines => ?_⟩
  have heq : Text.commentsIn text.toList (Declaration.ofParts name value).valueSpan =
      commentSpans value.start (valueParts value.chars) := (hiff.2 hlines).symm
  rw [heq]
  refine ⟨congrArg String.ofList (withoutComments_eq value.start value.chars), fun r hr k hk => ?_⟩
  have hfree := (List.mem_filter.1 hr).2
  simp only [Bool.not_eq_true', List.any_eq_false, Bool.not_eq_true] at hfree
  exact hfree k hk

/-- A comment of either kind in a value, and a reference behind them. -/
theorem parse_valueComments_lines :
    ∃ d ∈ (parse "a\x7bb: c /* ; */\n// var(--x)\nvar(--y)\x7d").declarations,
      d.ColonInWord "a\x7bb: c /* ; */\n// var(--x)\nvar(--y)\x7d".toList ∧
      Text.HeraldsLines "a\x7bb: c /* ; */\n// var(--x)\nvar(--y)\x7d".toList d.valueSpan ∧
      d.value = "c\nvar(--y)" := by
  have hd : (⟨"b", "c\nvar(--y)", [⟨"--y", ⟨31, 34⟩⟩], ⟨2, 3⟩, ⟨5, 35⟩, ⟨2, 35⟩⟩ : Declaration) ∈
      (parse "a\x7bb: c /* ; */\n// var(--x)\nvar(--y)\x7d").declarations := by
    decide +kernel
  have hcolon : Declaration.ColonInWord
      "a\x7bb: c /* ; */\n// var(--x)\nvar(--y)\x7d".toList
      ⟨"b", "c\nvar(--y)", [⟨"--y", ⟨31, 34⟩⟩], ⟨2, 3⟩, ⟨5, 35⟩, ⟨2, 35⟩⟩ :=
    ⟨[.word ['a'], .mark .openBrace], ['b'], [],
      (Text.pieces "a\x7bb: c /* ; */\n// var(--x)\nvar(--y)\x7d".toList).drop 3,
      by decide +kernel, by decide, by decide⟩
  refine ⟨_, hd, hcolon, (parse_valueComments hd hcolon).1.1 ?_, rfl⟩
  decide +kernel

/-- Behind a colon in a string, the value begins with the quote that ends the string, and the
    comment seems to stand in another one. -/
example : ((parse "a\x7b'x:' /* c */ d\x7d").declarations.map fun d =>
      (d.value, d.valueComments "a\x7b'x:' /* c */ d\x7d".toList,
        Text.commentsIn "a\x7b'x:' /* c */ d\x7d".toList d.valueSpan)) =
    [("' /* c */ d", [], [⟨7, 14⟩])] := by
  decide +kernel

/-- A line comment on the first line of a value is read as the value. -/
theorem value_of_comment :
    ((parse "a\x7bb:\n// var(--x)\nc\x7d").declarations.map fun d =>
        (d.value, d.refs.map VariableRef.name, d.valueSpan)) =
        [("// var(--x)\nc", ["--x"], ⟨5, 18⟩)] ∧
      Text.commentsIn "a\x7bb:\n// var(--x)\nc\x7d".toList ⟨5, 18⟩ = [⟨5, 16⟩] := by
  decide +kernel

end Sheet

end StyleServer
