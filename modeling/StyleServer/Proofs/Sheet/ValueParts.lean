/-
  The comments of a value, searched for a second time.

  Cutting a text into pieces finds its comments; reading a declaration searches its value
  for comments once more (`valueParts`).  Here the second search is followed along the pieces
  that the first one has cut.

  * `ValuePlace`: where the second search stands behind a piece.
  * `ValuePlace.read_piece`, `ValuePlace.read_pieces`: a step and a run.  The second search
    finds the comments of the pieces, as long as it sees the lines that double slashes begin.
  * `commentSpans_trim`: blanks behind a value only make its last comment longer.
-/
import StyleServer.Proofs.Sheet.Clause
import StyleServer.Sheet.Declaration

namespace StyleServer

open ValuePart (commentSpans)

/-! ## One part of a value -/

theorem commentSpans_kept (offset : Nat) (cs : Text) (parts : List ValuePart) :
    commentSpans offset (.kept cs :: parts) =
      commentSpans (offset + Text.byteLength cs) parts := rfl

theorem commentSpans_comment (offset : Nat) (cs : Text) (parts : List ValuePart) :
    commentSpans offset (.comment cs :: parts) = ⟨offset, offset + Text.byteLength cs⟩ ::
      commentSpans (offset + Text.byteLength cs) parts := rfl

theorem le_start_of_mem_commentSpans {offset : Nat} {parts : List ValuePart} {k : Span}
    (h : k ∈ commentSpans offset parts) : offset ≤ k.start := by
  induction parts generalizing offset with
  | nil => simp [ValuePart.commentSpans] at h
  | cons part parts ih =>
    cases part with
    | kept cs => exact Nat.le_trans (Nat.le_add_right ..) (ih h)
    | comment cs =>
      rcases List.mem_cons.1 h with rfl | h
      · exact Nat.le_refl _
      · exact Nat.le_trans (Nat.le_add_right ..) (ih h)

theorem valuePartsFrom_cons {lineStart next : Bool} {c : Char} {cs rest : Text} {part : ValuePart}
    (h : nextValuePart lineStart c cs = (part, next, rest)) :
    valuePartsFrom lineStart (c :: cs) = part :: valuePartsFrom next rest := by
  rw [valuePartsFrom, h]

/-- A character that the search passes over. -/
structure PassedOver (lineStart : Bool) (c : Char) (cs : Text) : Prop where
  not_quote : isQuote c = false
  not_blank : isAsciiBlank c = false
  not_block : c = '/' → cs.head? ≠ some '*'
  not_line : c = '/' → lineStart = true → cs.head? ≠ some '/'

theorem isQuote_of_isAsciiBlank {c : Char} (h : isAsciiBlank c = true) : isQuote c = false := by
  simp only [isAsciiBlank, Bool.or_eq_true, beq_iff_eq] at h
  rcases h with (((rfl | rfl) | rfl) | rfl) | rfl <;> decide

theorem nextValuePart_quote {c : Char} (h : isQuote c = true) (lineStart : Bool) (cs : Text) :
    nextValuePart lineStart c cs = (.kept (c :: (throughQuoteOrNewline c cs).1), false,
      (throughQuoteOrNewline c cs).2) := by
  unfold nextValuePart
  rw [if_pos h]

theorem nextValuePart_blank {c : Char} (h : isAsciiBlank c = true) (lineStart : Bool) (cs : Text) :
    nextValuePart lineStart c cs = (.kept [c], lineStart || c == '\n', cs) := by
  unfold nextValuePart
  rw [if_neg (by simp [isQuote_of_isAsciiBlank h]), if_pos h]

theorem nextValuePart_block (lineStart : Bool) (cs : Text) :
    nextValuePart lineStart '/' ('*' :: cs) =
      (.comment ('/' :: '*' :: (throughCommentEnd cs).1), lineStart, (throughCommentEnd cs).2) := rfl

theorem nextValuePart_line (cs : Text) :
    nextValuePart true '/' ('/' :: cs) =
      (.comment ('/' :: '/' :: (untilNewline cs).1), true, (untilNewline cs).2) := rfl

theorem PassedOver.nextValuePart_eq {lineStart : Bool} {c : Char} {cs : Text}
    (h : PassedOver lineStart c cs) : nextValuePart lineStart c cs = (.kept [c], false, cs) := by
  unfold nextValuePart
  rw [if_neg (by simp [h.not_quote]), if_neg (by simp [h.not_blank])]
  split
  · exact absurd rfl (h.not_block rfl)
  · split
    · next hl => exact absurd rfl (h.not_line rfl hl)
    · rfl
  · rfl

/-- What the next part can be. -/
theorem nextValuePart_cases (lineStart : Bool) (c : Char) (cs : Text) :
    isQuote c = true ∨ isAsciiBlank c = true ∨ (c = '/' ∧ ∃ rest, cs = '*' :: rest) ∨
      (c = '/' ∧ lineStart = true ∧ ∃ rest, cs = '/' :: rest) ∨ PassedOver lineStart c cs := by
  by_cases hq : isQuote c = true
  · exact Or.inl hq
  by_cases hb : isAsciiBlank c = true
  · exact Or.inr (Or.inl hb)
  by_cases hk : c = '/' ∧ cs.head? = some '*'
  · obtain ⟨rest, hr⟩ := List.head?_eq_some_iff.1 hk.2
    exact Or.inr (Or.inr (Or.inl ⟨hk.1, rest, hr⟩))
  by_cases hl : c = '/' ∧ lineStart = true ∧ cs.head? = some '/'
  · obtain ⟨rest, hr⟩ := List.head?_eq_some_iff.1 hl.2.2
    exact Or.inr (Or.inr (Or.inr (Or.inl ⟨hl.1, hl.2.1, rest, hr⟩)))
  exact Or.inr (Or.inr (Or.inr (Or.inr ⟨by simpa using hq, by simpa using hb,
    fun hc h => hk ⟨hc, h⟩, fun hc ho h => hl ⟨hc, ho, h⟩⟩)))

/-! ## Strings and comments before the pieces that follow -/

theorem head?_of_initial {l m : Text} (h : l <+: m) {d : Char} (hd : l.head? = some d) :
    m.head? = some d := by
  obtain ⟨t, rfl⟩ := h
  rw [List.head?_append, hd]
  rfl

theorem throughCommentEnd_before {cs after : Text} (h : after <+: (throughCommentEnd cs).2) :
    throughCommentEnd ((throughCommentEnd cs).1 ++ after) = ((throughCommentEnd cs).1, after) := by
  fun_induction throughCommentEnd cs with
  | case1 => rw [List.prefix_nil.1 h]; rfl
  | case2 cs => rfl
  | case3 c cs hne inside rest heq ih =>
    rw [heq] at ih
    rw [List.cons_append, throughCommentEnd, ih h]
    rintro rest' rfl hcs
    obtain ⟨more, rfl⟩ : ∃ more, cs = '/' :: more := by
      have hcut : inside ++ rest = cs := by simpa [heq] using throughCommentEnd_append cs
      have hpre : inside ++ after <+: inside ++ rest := (List.prefix_append_right_inj inside).2 h
      rw [hcut] at hpre
      exact List.head?_eq_some_iff.1 (head?_of_initial hpre (by rw [hcs]; rfl))
    exact hne more rfl rfl

/-- A line comment ends with its line feed, or where the text does. -/
theorem throughNewline_split (cs : Text) :
    (∃ line, (throughNewline cs).1 = line ++ ['\n'] ∧ ∀ c ∈ line, c ≠ '\n') ∨
      (∀ c ∈ (throughNewline cs).1, c ≠ '\n') ∧ (throughNewline cs).2 = [] := by
  fun_induction throughNewline cs with
  | case1 => exact Or.inr ⟨by simp, rfl⟩
  | case2 cs => exact Or.inl ⟨[], rfl, by simp⟩
  | case3 c cs hc inside rest heq ih =>
    rw [heq] at ih
    rcases ih with ⟨line, rfl, hline⟩ | ⟨hinside, hrest⟩
    · exact Or.inl ⟨c :: line, rfl, by simpa using ⟨hc, hline⟩⟩
    · exact Or.inr ⟨by simpa using ⟨hc, hinside⟩, hrest⟩

theorem untilNewline_append {line after : Text} (h : ∀ c ∈ line, c ≠ '\n')
    (hafter : ∀ d ∈ after.head?, d = '\n') : untilNewline (line ++ after) = (line, after) := by
  have hl : ∀ c ∈ line, (c != '\n') = true := fun c hc => by simpa using h c hc
  have ha : ∀ d ∈ after.head?, (d != '\n') = false := fun d hd => by simp [hafter d hd]
  rw [untilNewline, takeWhile_stop hl ha, dropWhile_stop hl ha]

/-- The inside of a string reaches a closing quote. -/
def closesQuote (quote : Char) : Text → Bool
  | [] => false
  | '\\' :: [] => false
  | '\\' :: _ :: cs => closesQuote quote cs
  | c :: cs => c == quote || closesQuote quote cs

theorem closesQuote_cons {quote c : Char} (hc : c ≠ '\\') (cs : Text) :
    closesQuote quote (c :: cs) = (c == quote || closesQuote quote cs) := by
  rw [closesQuote]
  · exact fun h _ => hc h
  · exact fun _ _ h _ => hc h

theorem throughQuoteOrNewline_cons {quote c : Char} (hc : c ≠ '\\') (cs : Text) :
    throughQuoteOrNewline quote (c :: cs) =
      if c = quote ∨ c = '\n' then ([c], cs)
      else (c :: (throughQuoteOrNewline quote cs).1, (throughQuoteOrNewline quote cs).2) := by
  rw [throughQuoteOrNewline]
  · exact fun h _ => hc h
  · exact fun _ _ h _ => hc h

/-- A string that is left open has a line feed behind it, or nothing. -/
theorem throughQuote_open {quote : Char} {cs : Text}
    (h : closesQuote quote (throughQuote quote cs).1 = false) :
    ∀ d ∈ (throughQuote quote cs).2.head?, d = '\n' := by
  induction cs using escapes_induction with
  | nil => simp [throughQuote]
  | lone => simp [throughQuote]
  | escape c cs ih =>
    simp only [throughQuote, closesQuote] at h ⊢
    exact ih h
  | other c cs hc ih =>
    rw [throughQuote_cons hc] at h ⊢
    by_cases hn : c = '\n'
    · simp [hn]
    · by_cases hq : c = quote
      · subst hq
        simp [hn, closesQuote_cons hc] at h
      · rw [if_neg hn, if_neg hq] at h ⊢
        rw [closesQuote_cons hc, Bool.or_eq_false_iff] at h
        exact ih h.2

/-- The second search takes a string that is left open together with its line feed. -/
theorem throughQuoteOrNewline_before {quote : Char} {cs after : Text}
    (h : after <+: (throughQuote quote cs).2) :
    throughQuoteOrNewline quote ((throughQuote quote cs).1 ++ after) =
      if closesQuote quote (throughQuote quote cs).1 = true then ((throughQuote quote cs).1, after)
      else ((throughQuote quote cs).1 ++ after.take 1, after.drop 1) := by
  induction cs using escapes_induction with
  | nil => rw [List.prefix_nil.1 h]; rfl
  | lone => rw [List.prefix_nil.1 h]; rfl
  | escape c cs ih =>
    simp only [throughQuote] at h ⊢
    simp only [List.cons_append, throughQuoteOrNewline, ih h, closesQuote]
    split
    · rfl
    · rfl
  | other c cs hc ih =>
    rw [throughQuote_cons hc] at h ⊢
    by_cases hn : c = '\n'
    · rw [if_pos hn] at h ⊢
      cases after with
      | nil => rfl
      | cons d ds =>
        obtain ⟨t, ht⟩ := h
        obtain rfl : d = c := (List.cons.inj ht).1
        rw [List.nil_append, throughQuoteOrNewline_cons hc, if_pos (Or.inr hn)]
        rfl
    · by_cases hq : c = quote
      · subst hq
        rw [if_neg hn, if_pos rfl, List.singleton_append, throughQuoteOrNewline_cons hc,
          if_pos (Or.inl rfl), if_pos (by simp [closesQuote_cons hc])]
      · rw [if_neg hn, if_neg hq] at h ⊢
        have hcloses : closesQuote quote (c :: (throughQuote quote cs).1) =
            closesQuote quote (throughQuote quote cs).1 := by simp [closesQuote_cons hc, hq]
        rw [List.cons_append, throughQuoteOrNewline_cons hc, if_neg (by simp [hn, hq]), ih h, hcloses]
        split
        · rfl
        · rfl

/-! ## Words -/

/-- A run of characters in front of `after` that the search passes over away from the start
    of a line. -/
def PassesOver : Text → Text → Prop
  | [], _ => True
  | c :: cs, after => PassedOver false c (cs ++ after) ∧ PassesOver cs after

theorem commentSpans_word {word after : Text} (h : PassesOver word after) (offset : Nat) :
    commentSpans offset (valuePartsFrom false (word ++ after)) =
      commentSpans (offset + Text.byteLength word) (valuePartsFrom false after) := by
  induction word generalizing offset with
  | nil => rfl
  | cons c cs ih =>
    rw [List.cons_append, valuePartsFrom_cons h.1.nextValuePart_eq, commentSpans_kept, ih h.2,
      Text.byteLength_cons, Text.byteLength_cons, Text.byteLength_nil, Nat.add_zero, Nat.add_assoc]

theorem PassesOver.suffix {a b after : Text} (h : PassesOver (a ++ b) after) :
    PassesOver b after := by
  induction a with
  | nil => exact h
  | cons c a ih => exact ih h.2

theorem PassedOver.of_startsText {place : Place} {c : Char} {cs : Text} (h : StartsText place c cs)
    (hq : isQuote c = false) {lineStart : Bool} (hl : lineStart = true → place.opensLineComment = true)
    {more : Text} (hmore : more <+: cs) : PassedOver lineStart c more :=
  ⟨hq, h.not_blank, fun hc hd => h.not_block hc (head?_of_initial hmore hd),
    fun hc hls hd => h.not_line hc (hl hls) (head?_of_initial hmore hd)⟩

theorem wordRest_passesOver {cs after : Text} (h : after <+: (wordRest cs).2) :
    PassesOver (wordRest cs).1 after := by
  induction cs using word_induction with
  | nil | block => trivial
  | stop c cs hc =>
    rw [wordRest_of_endsWord hc]
    trivial
  | other c cs hc hslash ih =>
    rw [wordRest_cons hc hslash] at h ⊢
    have hpre : (wordRest cs).1 ++ after <+: cs := by
      have hpre := (List.prefix_append_right_inj (wordRest cs).1).2 h
      rwa [wordRest_append] at hpre
    simp only [endsWord, Bool.or_eq_false_iff] at hc
    exact ⟨⟨hc.1.2, hc.2, fun hs hd => hslash hs (head?_of_initial hpre hd), by simp⟩, ih h⟩

/-! ## Pieces -/

/-- The comment that a piece at an offset is, without the line feed at its end. -/
def Piece.comment? (offset : Nat) : Piece → Option Span
  | .blockComment cs => some ⟨offset, offset + Text.byteLength cs⟩
  | .lineComment cs => some ⟨offset, offset + Text.byteLength (untilNewline cs).1⟩
  | .blank _ | .mark _ | .quoted _ | .word _ => none

/-- The comments among pieces that begin at a byte offset. -/
def commentsFrom (offset : Nat) : List Piece → List Span
  | [] => []
  | p :: ps => (p.comment? offset).toList ++ commentsFrom (offset + p.size) ps

/-- The piece is a string that is left open. -/
def Piece.isOpen : Piece → Bool
  | .quoted (quote :: inside) => !closesQuote quote inside
  | _ => false

/-- The piece is a comment of double slashes. -/
def Piece.isLineComment : Piece → Bool
  | .lineComment _ => true
  | _ => false

theorem CutsOff.open_before {place : Place} {c : Char} {cs rest : Text} {p : Piece}
    (h : CutsOff place c cs p rest) (ho : p.isOpen = true) : ∀ d ∈ rest.head?, d = '\n' := by
  cases h with
  | quoted hs hq => exact throughQuote_open (by simpa [Piece.isOpen] using ho)
  | blank | mark | block | line | word => simp [Piece.isOpen] at ho

theorem CutsOff.lineComment_chars {place : Place} {c : Char} {cs rest : Text} {p : Piece}
    (h : CutsOff place c cs p rest) (hp : p.isLineComment = true) :
    ∃ inside, p = .lineComment ('/' :: '/' :: inside) := by
  cases h with
  | line more ho => exact ⟨_, rfl⟩
  | blank | mark | block | quoted | word => simp [Piece.isLineComment] at hp

/-- Where the second search stands behind pieces of a value. -/
structure ValuePlace where
  /-- Double slashes open a comment here. -/
  lineStart : Bool
  /-- A string was left open; the line feed that ends it counts as a part of it. -/
  inString : Bool

/-- Inside a statement, only a mark lets a new one begin. -/
theorem Place.after_inside {p : Piece} (hm : p.mark? = none) {place : Place}
    (h : place.statementStart = false) : (place.after p).statementStart = false := by
  cases p with
  | blank c =>
    simp only [Place.after]
    split
    · exact h
    · exact h
  | blockComment | lineComment => exact h
  | mark m => simp [Piece.mark?] at hm
  | quoted | word => rfl

theorem Place.afterAll_inside {ps : List Piece} (hu : Piece.Unmarked ps) {place : Place}
    (h : place.statementStart = false) : (place.afterAll ps).statementStart = false := by
  induction ps generalizing place with
  | nil => exact h
  | cons p ps ih =>
    exact ih (fun q hq => hu q (List.mem_cons_of_mem _ hq))
      (after_inside (hu p List.mem_cons_self) h)

namespace ValuePlace

/-- The start of a value. -/
def origin : ValuePlace := ⟨false, false⟩

/-- The place behind a piece. -/
def after (s : ValuePlace) : Piece → ValuePlace
  | .blank c => ⟨!s.inString && (s.lineStart || c == '\n'), false⟩
  | .blockComment _ => ⟨s.lineStart, false⟩
  | .lineComment _ => ⟨true, false⟩
  | .mark _ | .word _ => ⟨false, false⟩
  | .quoted cs => ⟨false, (Piece.quoted cs).isOpen⟩

/-- The comments that the second search finds in `cs` from here on. -/
def read (s : ValuePlace) (offset : Nat) (cs : Text) : List Span :=
  if s.inString = true then
    commentSpans (offset + Text.byteLength (cs.take 1)) (valuePartsFrom false (cs.drop 1))
  else commentSpans offset (valuePartsFrom s.lineStart cs)

/-- What the first search, at `place` with the pieces `ps` to come, tells of the second. -/
structure At (s : ValuePlace) (place : Place) (ps : List Piece) : Prop where
  inside : place.statementStart = false
  lineStart : s.lineStart = true → place.lineStart = true
  inString : s.inString = true → ∀ p ∈ ps.head?, p = .blank '\n'

theorem read_of_not_inString {s : ValuePlace} (h : s.inString = false) (offset : Nat) (cs : Text) :
    s.read offset cs = commentSpans offset (valuePartsFrom s.lineStart cs) := by
  rw [read, if_neg (by simp [h])]

section
variable {s : ValuePlace} {place : Place} {c : Char} {cs more : Text} (offset : Nat)

theorem read_blank (hc : isAsciiBlank c = true) (hs : s.inString = false) :
    s.read offset (c :: more) = (s.after (.blank c)).read (offset + (Piece.blank c).size) more := by
  rw [read_of_not_inString hs, valuePartsFrom_cons (nextValuePart_blank hc _ _), commentSpans_kept]
  simp [read, after, hs, Piece.size, Piece.chars]

theorem read_block (hs : s.inString = false) (hmore : more <+: (throughCommentEnd cs).2) :
    s.read offset ('/' :: '*' :: (throughCommentEnd cs).1 ++ more) =
      ⟨offset, offset + Text.byteLength ('/' :: '*' :: (throughCommentEnd cs).1)⟩ ::
        (s.after (.blockComment ('/' :: '*' :: (throughCommentEnd cs).1))).read
          (offset + Text.byteLength ('/' :: '*' :: (throughCommentEnd cs).1)) more := by
  have hnext : nextValuePart s.lineStart '/' ('*' :: ((throughCommentEnd cs).1 ++ more)) = _ :=
    nextValuePart_block s.lineStart _
  rw [throughCommentEnd_before hmore] at hnext
  rw [read_of_not_inString hs, List.cons_append, List.cons_append, valuePartsFrom_cons hnext,
    commentSpans_comment]
  rfl

theorem read_line (hs : s.inString = false) (hl : s.lineStart = true)
    (hmore : more <+: (throughNewline cs).2) :
    s.read offset ('/' :: '/' :: (throughNewline cs).1 ++ more) =
      ((Piece.lineComment ('/' :: '/' :: (throughNewline cs).1)).comment? offset).toList ++
        (s.after (.lineComment ('/' :: '/' :: (throughNewline cs).1))).read
          (offset + Text.byteLength ('/' :: '/' :: (throughNewline cs).1)) more := by
  have hslashes : ∀ {line : Text}, (∀ c ∈ line, c ≠ '\n') → ∀ c ∈ '/' :: '/' :: line, c ≠ '\n' := by
    intro line hline c hc
    simp only [List.mem_cons] at hc
    rcases hc with rfl | rfl | hc
    · decide
    · decide
    · exact hline c hc
  rw [read_of_not_inString hs, hl]
  rcases throughNewline_split cs with ⟨line, hline, hfeed⟩ | ⟨hfeed, hrest⟩
  · -- The line feed stays behind the comment and is passed over as a blank.
    have hnext := nextValuePart_line (line ++ '\n' :: more)
    rw [untilNewline_append hfeed (by simp)] at hnext
    have hspan : (untilNewline ('/' :: '/' :: line ++ ['\n'])).1 = '/' :: '/' :: line := by
      rw [untilNewline_append (hslashes hfeed) (by simp)]
    have hblank := nextValuePart_blank (c := '\n') (by decide) true more
    simp only [hline, List.cons_append, List.append_assoc, List.nil_append] at hspan ⊢
    rw [valuePartsFrom_cons hnext, commentSpans_comment, valuePartsFrom_cons hblank,
      commentSpans_kept, Piece.comment?, hspan, read_of_not_inString rfl]
    simp [after, Nat.add_assoc]
  · rw [hrest] at hmore
    rw [List.prefix_nil.1 hmore, List.append_nil]
    have hnext := nextValuePart_line (throughNewline cs).1
    have huntil := @untilNewline_append _ [] hfeed (by simp)
    have hspan := @untilNewline_append _ [] (hslashes hfeed) (by simp)
    rw [List.append_nil] at huntil hspan
    rw [huntil] at hnext
    rw [valuePartsFrom_cons hnext, commentSpans_comment, Piece.comment?, hspan]
    simp [read, after, valuePartsFrom, ValuePart.commentSpans]

theorem read_word (hs : s.inString = false) (ht : StartsText place c cs) (hq : isQuote c = false)
    (hat : s.At place []) (hmore : more <+: (wordRest cs).2) :
    s.read offset (c :: (wordRest cs).1 ++ more) =
      (s.after (.word (c :: (wordRest cs).1))).read
        (offset + Text.byteLength (c :: (wordRest cs).1)) more := by
  have hpre : (wordRest cs).1 ++ more <+: cs := by
    have hpre := (List.prefix_append_right_inj (wordRest cs).1).2 hmore
    rwa [wordRest_append] at hpre
  have hover : PassedOver s.lineStart c ((wordRest cs).1 ++ more) := by
    refine .of_startsText ht hq (fun hl => ?_) hpre
    simp [Place.opensLineComment, hat.lineStart hl]
  rw [read_of_not_inString hs, List.cons_append, valuePartsFrom_cons hover.nextValuePart_eq,
    commentSpans_kept, commentSpans_word (wordRest_passesOver hmore)]
  simp [read, after, Nat.add_assoc]

theorem read_quoted (hs : s.inString = false) (hq : isQuote c = true)
    (hmore : more <+: (throughQuote c cs).2) :
    s.read offset (c :: (throughQuote c cs).1 ++ more) =
      (s.after (.quoted (c :: (throughQuote c cs).1))).read
        (offset + Text.byteLength (c :: (throughQuote c cs).1)) more := by
  rw [read_of_not_inString hs, List.cons_append, valuePartsFrom_cons (nextValuePart_quote hq _ _),
    commentSpans_kept, throughQuoteOrNewline_before hmore]
  cases hcloses : closesQuote c (throughQuote c cs).1 with
  | true => simp [read, after, Piece.isOpen, hcloses]
  | false => simp [read, after, Piece.isOpen, hcloses, Nat.add_assoc]

end

/-- **A step:** the second search finds the comment that a piece is, and goes on behind the
    piece; it finds a line comment where it sees that a line begins. -/
theorem read_piece {s : ValuePlace} {place : Place} {c : Char} {cs rest more : Text} {p : Piece}
    (hp : CutsOff place c cs p rest) (hmore : more <+: rest) (hm : p.mark? = none)
    (hs : s.At place [p]) (hline : p.isLineComment = true → s.lineStart = true) (offset : Nat) :
    s.read offset (p.chars ++ more) =
      (p.comment? offset).toList ++ (s.after p).read (offset + p.size) more := by
  cases hin : s.inString with
  | true =>
    rw [hs.inString hin p rfl]
    simp [read, hin, after, Piece.chars, Piece.comment?, Piece.size]
  | false =>
    cases hp with
    | blank hb => exact read_blank offset hb hin
    | mark => simp [Piece.mark?] at hm
    | block => exact read_block offset hin hmore
    | line => exact read_line offset hin (hline rfl) hmore
    | quoted ht hq => exact read_quoted offset hin hq hmore
    | word ht hq => exact read_word offset hin ht hq ⟨hs.inside, hs.lineStart, by simp⟩ hmore

/-! ### A run -/

/-- The place behind pieces. -/
def afterAll (s : ValuePlace) (ps : List Piece) : ValuePlace := ps.foldl after s

/-- The second search sees that the lines begin on which line comments stand. -/
def Sees (s : ValuePlace) : List Piece → Prop
  | [] => True
  | p :: ps => (p.isLineComment = true → s.lineStart = true) ∧ (s.after p).Sees ps

theorem sees_iff {s : ValuePlace} {ps : List Piece} :
    s.Sees ps ↔ ∀ before p behind, ps = before ++ p :: behind → p.isLineComment = true →
      (s.afterAll before).lineStart = true := by
  induction ps generalizing s with
  | nil => simp [Sees]
  | cons q ps ih =>
    rw [Sees, ih]
    constructor
    · rintro ⟨hq, hps⟩ before p behind heq hp
      cases before with
      | nil =>
        obtain ⟨rfl, -⟩ := List.cons.inj heq
        exact hq hp
      | cons b before =>
        obtain ⟨rfl, hrest⟩ := List.cons.inj heq
        exact hps before p behind hrest hp
    · intro h
      exact ⟨fun hq => h [] q ps rfl hq,
        fun before p behind heq hp => h (q :: before) p behind (by rw [heq]; rfl) hp⟩

theorem read_nil (s : ValuePlace) (offset : Nat) : s.read offset [] = [] := by
  rw [read]
  split
  · simp [valuePartsFrom, ValuePart.commentSpans]
  · simp [valuePartsFrom, ValuePart.commentSpans]

/-- What holds before a piece holds behind it. -/
theorem At.after {s : ValuePlace} {place : Place} {c : Char} {cs rest : Text} {p : Piece}
    {ps behind : List Piece} (hs : s.At place (p :: ps)) (hp : CutsOff place c cs p rest)
    (hm : p.mark? = none) (hrest : Text.piecesFrom (place.after p) rest = ps ++ behind) :
    (s.after p).At (place.after p) ps := by
  refine ⟨Place.after_inside hm hs.inside, fun hl => ?_, fun hopen q hq => ?_⟩
  · cases p with
    | blank d =>
      by_cases hd : d = '\n'
      · simp [Place.after, hd]
      · simp only [ValuePlace.after, hd, beq_iff_eq, Bool.and_eq_true, Bool.or_eq_true, or_false] at hl
        simp [Place.after, hd, hs.lineStart hl.2]
    | blockComment => exact hs.lineStart hl
    | lineComment => rfl
    | mark | quoted | word => simp [ValuePlace.after] at hl
  · -- A string that is left open ends before a line feed, which is the next piece.
    have hpopen : p.isOpen = true := by
      cases p with
      | quoted qs => exact hopen
      | blank | blockComment | lineComment | mark | word => simp [ValuePlace.after] at hopen
    obtain ⟨ps, rfl⟩ := List.head?_eq_some_iff.1 hq
    cases rest with
    | nil => simp [Text.piecesFrom] at hrest
    | cons d ds =>
      obtain rfl := hp.open_before hpopen d rfl
      rw [Text.piecesFrom_cons (nextPiece_blank (by decide) _ ds), List.cons_append] at hrest
      exact (List.cons.inj hrest).1.symm

/-- A line comment is passed over where the second search sees no line begin. -/
theorem lt_start_of_unseen {s : ValuePlace} (hs : s.inString = false) (hl : s.lineStart = false)
    {offset : Nat} {cs : Text} {k : Span} (h : k ∈ s.read offset ('/' :: '/' :: cs)) :
    offset < k.start := by
  have hover : PassedOver false '/' ('/' :: cs) :=
    ⟨by decide, by decide, by simp, by simp⟩
  rw [read_of_not_inString hs, hl, valuePartsFrom_cons hover.nextValuePart_eq,
    commentSpans_kept] at h
  exact le_start_of_mem_commentSpans h

/-- **A run:** the second search finds the comments among pieces if it sees the lines that line
    comments begin, and only then. -/
theorem read_pieces {s : ValuePlace} {place : Place} {text : Text} {ps behind : List Piece}
    (htext : Text.piecesFrom place text = ps ++ behind) (hu : Piece.Unmarked ps)
    (hs : s.At place ps) (offset : Nat) :
    (s.Sees ps → s.read offset (Piece.allChars ps) = commentsFrom offset ps) ∧
      ((s.read offset (Piece.allChars ps)).map Span.start =
        (commentsFrom offset ps).map Span.start → s.Sees ps) := by
  induction ps generalizing s place text offset with
  | nil => exact ⟨fun _ => read_nil s offset, fun _ => trivial⟩
  | cons p ps ih =>
    cases text with
    | nil => simp [Text.piecesFrom] at htext
    | cons c cs =>
      rw [Text.piecesFrom, List.cons_append] at htext
      obtain ⟨hp, hrest⟩ := List.cons.inj htext
      have hcut : CutsOff place c cs p (nextPiece place c cs).2 :=
        cutsOff_of_nextPiece (by rw [← hp])
      rw [hp] at hrest
      have hm := hu p List.mem_cons_self
      have hmore : Piece.allChars ps <+: (nextPiece place c cs).2 := by
        have hall := Text.allChars_piecesFrom (place.after p) (nextPiece place c cs).2
        rw [hrest, Piece.allChars_append] at hall
        exact ⟨_, hall⟩
      by_cases hline : p.isLineComment = true → s.lineStart = true
      · obtain ⟨hfind, hsee⟩ := ih hrest (fun q hq => hu q (List.mem_cons_of_mem _ hq))
          (hs.after hcut hm hrest) (offset + p.size)
        have hstep := read_piece hcut hmore hm
          ⟨hs.inside, hs.lineStart, fun hin q hq => hs.inString hin q (by simpa using hq)⟩ hline offset
        rw [Piece.allChars_cons, hstep, commentsFrom]
        refine ⟨fun h => by rw [hfind h.2], fun h => ⟨hline, hsee ?_⟩⟩
        simpa using h
      · refine ⟨fun h => absurd h.1 hline, fun h => ?_⟩
        have hcomment : p.isLineComment = true := Decidable.byContradiction fun hc =>
          hline fun hp => absurd hp hc
        have hl : s.lineStart = false := by simpa [hcomment] using hline
        have hin : s.inString = false := by
          cases hin : s.inString with
          | false => rfl
          | true => simp [hs.inString hin p rfl, Piece.isLineComment] at hcomment
        -- The first search finds a comment here, the second one none that begins here.
        obtain ⟨inside, rfl⟩ := hcut.lineComment_chars hcomment
        have hmem : offset ∈ (s.read offset
            (Piece.allChars (.lineComment ('/' :: '/' :: inside) :: ps))).map Span.start := by
          rw [h]
          exact List.mem_cons_self
        obtain ⟨k, hk, hstart⟩ := List.mem_map.1 hmem
        exact absurd hstart (Nat.ne_of_gt (lt_start_of_unseen hin hl hk))

end ValuePlace

/-! ## Blanks behind a value -/

/-- Cutting `cut` off is followed by blanks: it takes some of them along where nothing is left
    of the text before them. -/
def CutBefore (cut : Text × Text) (blanks : Text) (cut' : Text × Text) : Prop :=
  ∃ taken left, blanks = taken ++ left ∧ cut' = (cut.1 ++ taken, cut.2 ++ left) ∧
    (cut.2 ≠ [] → taken = [])

theorem CutBefore.cons {cut cut' : Text × Text} {blanks : Text} (h : CutBefore cut blanks cut')
    (cs : Text) : CutBefore (cs ++ cut.1, cut.2) blanks (cs ++ cut'.1, cut'.2) := by
  obtain ⟨taken, left, hsplit, rfl, htaken⟩ := h
  exact ⟨taken, left, hsplit, by simp, htaken⟩

theorem CutBefore.of_nil {cut : Text × Text} {blanks : Text} (h : cut.1 ++ cut.2 = blanks) :
    CutBefore ([], []) blanks cut :=
  ⟨cut.1, cut.2, h.symm, by simp, by simp⟩

theorem CutBefore.of_end (cs cs' blanks : Text) : CutBefore (cs, cs') blanks (cs, cs' ++ blanks) :=
  ⟨[], blanks, rfl, by simp, by simp⟩

theorem throughQuoteOrNewline_blanks (quote : Char) (cs blanks : Text) :
    CutBefore (throughQuoteOrNewline quote cs) blanks
      (throughQuoteOrNewline quote (cs ++ blanks)) := by
  induction cs using escapes_induction with
  | nil => exact .of_nil (throughQuoteOrNewline_append quote blanks)
  | lone =>
    cases blanks with
    | nil => exact .of_end _ _ _
    | cons d ds =>
      refine ⟨d :: (throughQuoteOrNewline quote ds).1, (throughQuoteOrNewline quote ds).2, by simp, rfl,
        by simp [throughQuoteOrNewline]⟩
  | escape c cs ih => exact ih.cons ['\\', c]
  | other c cs hc ih =>
    rw [List.cons_append, throughQuoteOrNewline_cons hc, throughQuoteOrNewline_cons hc]
    by_cases hend : c = quote ∨ c = '\n'
    · rw [if_pos hend, if_pos hend]
      exact .of_end _ _ _
    · rw [if_neg hend, if_neg hend]
      exact ih.cons [c]

theorem throughCommentEnd_blanks {blanks : Text} (h : ∀ c ∈ blanks, isBlank c = true) (cs : Text) :
    CutBefore (throughCommentEnd cs) blanks (throughCommentEnd (cs ++ blanks)) := by
  fun_induction throughCommentEnd cs with
  | case1 => exact .of_nil (throughCommentEnd_append blanks)
  | case2 cs => exact .of_end _ _ _
  | case3 c cs hne inside rest heq ih =>
    rw [heq] at ih
    rw [List.cons_append, throughCommentEnd]
    · exact ih.cons [c]
    · rintro more rfl hcs
      cases cs with
      | nil =>
        have hslash : isBlank '/' = true := h '/' (by simp [show blanks = '/' :: more from hcs])
        exact absurd hslash (by decide)
      | cons d ds =>
        obtain ⟨rfl, -⟩ := List.cons.inj hcs
        exact hne ds rfl rfl

theorem untilNewline_blanks (cs blanks : Text) :
    CutBefore (untilNewline cs) blanks (untilNewline (cs ++ blanks)) := by
  induction cs with
  | nil => exact .of_nil (List.takeWhile_append_dropWhile ..)
  | cons c cs ih =>
    by_cases hc : c = '\n'
    · subst hc
      exact .of_end [] ('\n' :: cs) blanks
    · have hcons : ∀ cs, untilNewline (c :: cs) = (c :: (untilNewline cs).1, (untilNewline cs).2) := by
        intro cs
        simp [untilNewline, hc]
      rw [List.cons_append, hcons, hcons]
      exact ih.cons [c]

theorem isBlank_of_isQuote {c : Char} (h : isQuote c = true) : isBlank c = false := by
  simp only [isQuote, Bool.or_eq_true, beq_iff_eq] at h
  rcases h with rfl | rfl <;> decide

/-- There are no comments among blanks. -/
theorem commentSpans_blanks {blanks : Text} (h : ∀ c ∈ blanks, isBlank c = true)
    (lineStart : Bool) (offset : Nat) :
    commentSpans offset (valuePartsFrom lineStart blanks) = [] := by
  induction blanks generalizing lineStart offset with
  | nil => simp [valuePartsFrom, ValuePart.commentSpans]
  | cons c cs ih =>
    have ih := ih fun d hd => h d (List.mem_cons_of_mem _ hd)
    have hc := h c List.mem_cons_self
    have hslash : c ≠ '/' := by rintro rfl; exact absurd hc (by decide)
    rcases nextValuePart_cases lineStart c cs with hq | hb | ⟨hs, -⟩ | ⟨hs, -⟩ | ho
    · simp [isBlank_of_isQuote hq] at hc
    · rw [valuePartsFrom_cons (nextValuePart_blank hb lineStart cs), commentSpans_kept, ih]
    · exact absurd hs hslash
    · exact absurd hs hslash
    · rw [valuePartsFrom_cons ho.nextValuePart_eq, commentSpans_kept, ih]

/-- The part of a span up to an offset. -/
def Span.clip (stop : Nat) (s : Span) : Span := ⟨s.start, min s.stop stop⟩

/-- What is found behind a part that may take blanks along. -/
theorem CutBefore.commentSpans_eq {cut cut' : Text × Text} {blanks : Text}
    (h : CutBefore cut blanks cut') (hb : ∀ c ∈ blanks, isBlank c = true) {next : Bool}
    (ih : ∀ {blanks : Text}, (∀ c ∈ blanks, isBlank c = true) → ∀ offset,
      commentSpans offset (valuePartsFrom next cut.2) =
        (commentSpans offset (valuePartsFrom next (cut.2 ++ blanks))).map
          (Span.clip (offset + Text.byteLength cut.2))) (offset : Nat) :
    commentSpans (offset + Text.byteLength cut.1) (valuePartsFrom next cut.2) =
      (commentSpans (offset + Text.byteLength cut'.1) (valuePartsFrom next cut'.2)).map
        (Span.clip (offset + Text.byteLength cut.1 + Text.byteLength cut.2)) := by
  obtain ⟨taken, left, rfl, rfl, htaken⟩ := h
  have hleft : ∀ c ∈ left, isBlank c = true := fun c hc => hb c (List.mem_append_right _ hc)
  by_cases hrest : cut.2 = []
  · simp only [hrest, List.nil_append, commentSpans_blanks hleft]
    simp [valuePartsFrom, ValuePart.commentSpans]
  · simp only [htaken hrest, List.append_nil]
    exact ih hleft _

/-- A comment that may take blanks along ends where the text before the blanks does. -/
theorem CutBefore.clip_eq {cut cut' : Text × Text} {blanks : Text} (h : CutBefore cut blanks cut')
    (offset : Nat) :
    Span.clip (offset + Text.byteLength cut.1 + Text.byteLength cut.2)
        ⟨offset, offset + Text.byteLength cut'.1⟩ = ⟨offset, offset + Text.byteLength cut.1⟩ := by
  obtain ⟨taken, left, -, rfl, htaken⟩ := h
  by_cases hrest : cut.2 = []
  · simp [Span.clip, hrest, ← Nat.add_assoc]
  · simp [Span.clip, htaken hrest]

/-- A part in front of blanks, and what is found behind it. -/
theorem CutBefore.step {cut cut' : Text × Text} {blanks : Text} (h : CutBefore cut blanks cut')
    (hb : ∀ c ∈ blanks, isBlank c = true) {lineStart next : Bool} {c : Char} {cs : Text}
    {part : Text → ValuePart} (hkind : part = .kept ∨ part = .comment)
    (hpart : nextValuePart lineStart c cs = (part cut.1, next, cut.2))
    (hpart' : nextValuePart lineStart c (cs ++ blanks) = (part cut'.1, next, cut'.2))
    (ih : ∀ {blanks : Text}, (∀ c ∈ blanks, isBlank c = true) → ∀ offset,
      commentSpans offset (valuePartsFrom next cut.2) =
        (commentSpans offset (valuePartsFrom next (cut.2 ++ blanks))).map
          (Span.clip (offset + Text.byteLength cut.2))) (offset : Nat) :
    commentSpans offset (valuePartsFrom lineStart (c :: cs)) =
      (commentSpans offset (valuePartsFrom lineStart (c :: cs ++ blanks))).map
        (Span.clip (offset + Text.byteLength (c :: cs))) := by
  have hvalue : cut.1 ++ cut.2 = c :: cs := by
    have hall := nextValuePart_append lineStart c cs
    rw [hpart] at hall
    rcases hkind with rfl | rfl
    · exact hall
    · exact hall
  have hrest := h.commentSpans_eq hb ih offset
  rw [List.cons_append, valuePartsFrom_cons hpart, valuePartsFrom_cons hpart', ← hvalue,
    Text.byteLength_append, ← Nat.add_assoc]
  rcases hkind with rfl | rfl
  · exact hrest
  · rw [commentSpans_comment, commentSpans_comment, List.map_cons, h.clip_eq, hrest]

/-- **Blanks behind a value** at most make its last comment longer. -/
theorem commentSpans_trim {blanks : Text} (h : ∀ c ∈ blanks, isBlank c = true) (lineStart : Bool)
    (value : Text) (offset : Nat) :
    commentSpans offset (valuePartsFrom lineStart value) =
      (commentSpans offset (valuePartsFrom lineStart (value ++ blanks))).map
        (Span.clip (offset + Text.byteLength value)) := by
  induction lineStart, value using valuePartsFrom.induct generalizing offset blanks with
  | case1 lineStart =>
    rw [List.nil_append, commentSpans_blanks h]
    simp [valuePartsFrom, ValuePart.commentSpans]
  | case2 lineStart c cs ih =>
    rcases nextValuePart_cases lineStart c cs with
      hq | hb | ⟨rfl, rest, rfl⟩ | ⟨rfl, rfl, rest, rfl⟩ | ho
    · rw [nextValuePart_quote hq] at ih
      exact ((throughQuoteOrNewline_blanks c cs blanks).cons [c]).step h (Or.inl rfl)
        (nextValuePart_quote hq lineStart cs) (nextValuePart_quote hq lineStart _) ih offset
    · rw [nextValuePart_blank hb] at ih
      exact (CutBefore.of_end [c] cs blanks).step h (Or.inl rfl)
        (nextValuePart_blank hb lineStart cs) (nextValuePart_blank hb lineStart _) ih offset
    · exact ((throughCommentEnd_blanks h rest).cons ['/', '*']).step h (Or.inr rfl)
        (nextValuePart_block lineStart rest) (nextValuePart_block lineStart _) ih offset
    · exact ((untilNewline_blanks rest blanks).cons ['/', '/']).step h (Or.inr rfl)
        (nextValuePart_line rest) (nextValuePart_line _) ih offset
    · have hover : PassedOver lineStart c (cs ++ blanks) := by
        cases cs with
        | cons d ds => exact ⟨ho.not_quote, ho.not_blank, ho.not_block, ho.not_line⟩
        | nil =>
          have hd : ∀ d, isBlank d = false → ([] ++ blanks).head? ≠ some d := fun d hd hhead => by
            simp [h d (List.mem_of_mem_head? hhead)] at hd
          exact ⟨ho.not_quote, ho.not_blank, fun _ => hd '*' (by decide),
            fun _ _ => hd '/' (by decide)⟩
      rw [ho.nextValuePart_eq] at ih
      exact (CutBefore.of_end [c] cs blanks).step h (Or.inl rfl) ho.nextValuePart_eq
        hover.nextValuePart_eq ih offset

end StyleServer
