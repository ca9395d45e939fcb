/-
  The shapes of pieces.

  What a comment, a string or a word is, said of its characters and of the text behind it and
  not by reading them.

  * `IsBlockComment`, `IsLineComment`, `IsString`, `IsWord`: the shapes; `Piece.Shaped` puts
    them together.
  * `isBlockComment_iff`, `isLineComment_iff`, `isString_iff`, `isWord_iff`: the readers cut
    off what has the shape, and nothing else.
  * `nextPiece_eq_iff`: the next piece of a text is the only one that has its shape there.
-/
import StyleServer.Proofs.Piece.Blanked
import StyleServer.Proofs.Sheet.Plain
import StyleServer.Proofs.Sheet.ValueParts

namespace StyleServer

/-! ## Shapes -/

/-- From `/*` through the first `*/` behind it, or to the end of the text. -/
inductive IsBlockComment : Text → Text → Prop where
  | closed {inside rest : Text} (h : ¬ ['*', '/'] <:+: inside ++ ['*']) :
      IsBlockComment ('/' :: '*' :: (inside ++ ['*', '/'])) rest
  | unclosed {inside : Text} (h : ¬ ['*', '/'] <:+: inside) :
      IsBlockComment ('/' :: '*' :: inside) []

/-- From `//` through the line feed, or to the end of the text. -/
inductive IsLineComment : Text → Text → Prop where
  | ended {inside rest : Text} (h : '\n' ∉ inside) :
      IsLineComment ('/' :: '/' :: (inside ++ ['\n'])) rest
  | last {inside : Text} (h : '\n' ∉ inside) : IsLineComment ('/' :: '/' :: inside) []

/-- The inside of a string: a quote or a line feed stands only behind a backslash. -/
inductive StringInside (quote : Char) : Text → Prop where
  | nil : StringInside quote []
  | escape (c : Char) {cs : Text} (h : StringInside quote cs) : StringInside quote ('\\' :: c :: cs)
  | other {c : Char} {cs : Text} (hc : c ≠ '\\' ∧ c ≠ quote ∧ c ≠ '\n')
      (h : StringInside quote cs) : StringInside quote (c :: cs)

/-- From a quote to the first such quote that is not escaped, or up to a line feed that is not
    escaped, or to the end of the text. -/
inductive IsString : Text → Text → Prop where
  | closed {quote : Char} {inside rest : Text} (hq : isQuote quote = true)
      (h : StringInside quote inside) : IsString (quote :: (inside ++ [quote])) rest
  | upToFeed {quote : Char} {inside rest : Text} (hq : isQuote quote = true)
      (h : StringInside quote inside) : IsString (quote :: inside) ('\n' :: rest)
  | toEnd {quote : Char} {inside : Text} (hq : isQuote quote = true)
      (h : StringInside quote inside) : IsString (quote :: inside) []
  /-- The text ends behind a backslash. -/
  | toBackslash {quote : Char} {inside : Text} (hq : isQuote quote = true)
      (h : StringInside quote inside) : IsString (quote :: (inside ++ ['\\'])) []

/-- A run of characters that do not end words and open no block comment, as long as can be. -/
structure IsWord (chars rest : Text) : Prop where
  ne_nil : chars ≠ []
  plain : ∀ c ∈ chars, endsWord c = false
  no_comment : ¬ ['/', '*'] <:+: chars ++ rest.take 1
  maximal : (∀ c ∈ rest.head?, endsWord c = true) ∨ ['/', '*'] <+: rest

/-- A piece has its shape in front of `rest`. -/
def Piece.Shaped (rest : Text) : Piece → Prop
  | .blank c => isAsciiBlank c = true
  | .blockComment chars => IsBlockComment chars rest
  | .lineComment chars => IsLineComment chars rest
  | .mark _ => True
  | .quoted chars => IsString chars rest
  | .word chars => IsWord chars rest

/-! ## Block comments -/

theorem throughCommentEnd_cons {c : Char} {cs : Text} (h : c = '*' → cs.head? ≠ some '/') :
    throughCommentEnd (c :: cs) = (c :: (throughCommentEnd cs).1, (throughCommentEnd cs).2) := by
  rw [throughCommentEnd]
  rintro rest rfl rfl
  exact h rfl rfl

/-- Two characters follow each other neither at the front of a text nor behind that. -/
theorem not_infix_cons {x y c : Char} {cs : Text} :
    ¬ [x, y] <:+: c :: cs ↔ (c = x → cs.head? ≠ some y) ∧ ¬ [x, y] <:+: cs := by
  have hhead : [y] <+: cs ↔ cs.head? = some y := by
    cases cs with
    | nil => simp
    | cons d cs => simp [List.cons_prefix_cons, eq_comm]
  rw [List.infix_cons_iff, not_or, List.cons_prefix_cons, not_and, hhead]
  exact and_congr_left fun _ => ⟨fun h hc => h hc.symm, fun h hc => h hc.symm⟩

theorem throughCommentEnd_closed {inside : Text} (h : ¬ ['*', '/'] <:+: inside ++ ['*'])
    (rest : Text) :
    throughCommentEnd (inside ++ '*' :: '/' :: rest) = (inside ++ ['*', '/'], rest) := by
  induction inside with
  | nil => rfl
  | cons c inside ih =>
    rw [List.cons_append] at h
    obtain ⟨hc, htail⟩ := not_infix_cons.1 h
    have hhead : c = '*' → (inside ++ '*' :: '/' :: rest).head? ≠ some '/' := by
      intro hstar hslash
      cases inside with
      | nil => simp at hslash
      | cons d inside => exact hc hstar hslash
    rw [List.cons_append, throughCommentEnd_cons hhead, ih htail]
    rfl

theorem throughCommentEnd_unclosed {inside : Text} (h : ¬ ['*', '/'] <:+: inside) :
    throughCommentEnd inside = (inside, []) := by
  induction inside with
  | nil => rfl
  | cons c inside ih =>
    obtain ⟨hc, htail⟩ := not_infix_cons.1 h
    rw [throughCommentEnd_cons hc, ih htail]

theorem isBlockComment_through (cs : Text) :
    IsBlockComment ('/' :: '*' :: (throughCommentEnd cs).1) (throughCommentEnd cs).2 := by
  by_cases h : ['*', '/'] <:+: cs
  · -- Cut the text at the first end of a comment.
    obtain ⟨inside, rest, rfl, hfirst⟩ : ∃ inside rest, cs = inside ++ '*' :: '/' :: rest ∧
        ¬ ['*', '/'] <:+: inside ++ ['*'] := by
      induction cs with
      | nil => simp at h
      | cons c cs ih =>
        by_cases hc : c = '*' ∧ cs.head? = some '/'
        · obtain ⟨rest, rfl⟩ := List.head?_eq_some_iff.1 hc.2
          exact ⟨[], rest, by rw [hc.1]; rfl, by decide⟩
        · have hnot : c = '*' → cs.head? ≠ some '/' := fun h₁ h₂ => hc ⟨h₁, h₂⟩
          have htail : ['*', '/'] <:+: cs := by
            refine Classical.byContradiction fun hno => ?_
            exact not_infix_cons.2 ⟨hnot, hno⟩ h
          obtain ⟨inside, rest, rfl, hfirst⟩ := ih htail
          refine ⟨c :: inside, rest, rfl, ?_⟩
          rw [List.cons_append]
          refine not_infix_cons.2 ⟨fun hstar hslash => hnot hstar ?_, hfirst⟩
          cases inside with
          | nil => exact absurd hslash (by decide)
          | cons d inside => exact hslash
    rw [throughCommentEnd_closed hfirst]
    exact .closed hfirst
  · rw [throughCommentEnd_unclosed h]
    exact .unclosed h

theorem isBlockComment_iff {inside rest : Text} :
    IsBlockComment ('/' :: '*' :: inside) rest ↔
      throughCommentEnd (inside ++ rest) = (inside, rest) := by
  constructor
  · intro h
    cases h with
    | closed h => rw [List.append_assoc]; exact throughCommentEnd_closed h rest
    | unclosed h => rw [List.append_nil]; exact throughCommentEnd_unclosed h
  · intro h
    have hshape := isBlockComment_through (inside ++ rest)
    rwa [h] at hshape

/-! ## Line comments -/

theorem throughNewline_ended {inside : Text} (h : '\n' ∉ inside) (rest : Text) :
    throughNewline (inside ++ '\n' :: rest) = (inside ++ ['\n'], rest) := by
  induction inside with
  | nil => simp [throughNewline]
  | cons c inside ih =>
    rw [List.mem_cons, not_or] at h
    rw [List.cons_append, throughNewline, if_neg fun hc => h.1 hc.symm, ih h.2]
    rfl

theorem throughNewline_last {inside : Text} (h : '\n' ∉ inside) :
    throughNewline inside = (inside, []) := by
  induction inside with
  | nil => rfl
  | cons c inside ih =>
    rw [List.mem_cons, not_or] at h
    rw [throughNewline, if_neg fun hc => h.1 hc.symm, ih h.2]

theorem isLineComment_through (cs : Text) :
    IsLineComment ('/' :: '/' :: (throughNewline cs).1) (throughNewline cs).2 := by
  by_cases h : '\n' ∈ cs
  · obtain ⟨inside, rest, rfl, hfirst⟩ := List.eq_append_cons_of_mem h
    rw [throughNewline_ended hfirst]
    exact .ended hfirst
  · rw [throughNewline_last h]
    exact .last h

theorem isLineComment_iff {inside rest : Text} :
    IsLineComment ('/' :: '/' :: inside) rest ↔
      throughNewline (inside ++ rest) = (inside, rest) := by
  constructor
  · intro h
    cases h with
    | ended h => rw [List.append_assoc]; exact throughNewline_ended h rest
    | last h => rw [List.append_nil]; exact throughNewline_last h
  · intro h
    have hshape := isLineComment_through (inside ++ rest)
    rwa [h] at hshape

/-! ## Strings -/

/-- The inside of a string is read as it stands. -/
theorem throughQuote_inside {quote : Char} {inside : Text} (h : StringInside quote inside)
    (tail : Text) :
    throughQuote quote (inside ++ tail) =
      (inside ++ (throughQuote quote tail).1, (throughQuote quote tail).2) := by
  induction h with
  | nil => rfl
  | escape c _ ih => simp only [List.cons_append, throughQuote, ih]
  | other hc _ ih =>
    rw [List.cons_append, throughQuote_cons hc.1, if_neg hc.2.2, if_neg hc.2.1, ih]
    rfl

/-- What can stand behind the inside of a string: its end. -/
theorem exists_stringInside (quote : Char) (cs : Text) :
    ∃ inside tail, StringInside quote inside ∧ cs = inside ++ tail ∧
      (tail = [] ∨ tail = ['\\'] ∨ tail.head? = some quote ∨ tail.head? = some '\n') := by
  induction cs using escapes_induction with
  | nil => exact ⟨[], [], .nil, rfl, Or.inl rfl⟩
  | lone => exact ⟨[], ['\\'], .nil, rfl, Or.inr (Or.inl rfl)⟩
  | escape c cs ih =>
    obtain ⟨inside, tail, hinside, rfl, htail⟩ := ih
    exact ⟨'\\' :: c :: inside, tail, .escape c hinside, rfl, htail⟩
  | other c cs hc ih =>
    by_cases hq : c = quote
    · exact ⟨[], c :: cs, .nil, rfl, Or.inr (Or.inr (Or.inl (by rw [hq]; rfl)))⟩
    by_cases hn : c = '\n'
    · exact ⟨[], c :: cs, .nil, rfl, Or.inr (Or.inr (Or.inr (by rw [hn]; rfl)))⟩
    obtain ⟨inside, tail, hinside, rfl, htail⟩ := ih
    exact ⟨c :: inside, tail, .other ⟨hc, hq, hn⟩ hinside, rfl, htail⟩

theorem throughQuote_quote {quote : Char} (hq : isQuote quote = true) (rest : Text) :
    throughQuote quote (quote :: rest) = ([quote], rest) := by
  have hne : quote ≠ '\\' ∧ quote ≠ '\n' := by
    rcases isQuote_iff.1 hq with rfl | rfl <;> decide
  rw [throughQuote_cons hne.1, if_neg hne.2, if_pos rfl]

theorem throughQuote_feed (quote : Char) (rest : Text) :
    throughQuote quote ('\n' :: rest) = ([], '\n' :: rest) := by
  rw [throughQuote_cons (by decide), if_pos rfl]

theorem isString_through {quote : Char} (hq : isQuote quote = true) (cs : Text) :
    IsString (quote :: (throughQuote quote cs).1) (throughQuote quote cs).2 := by
  obtain ⟨inside, tail, h, rfl, htail⟩ := exists_stringInside quote cs
  rw [throughQuote_inside h]
  rcases htail with rfl | rfl | htail | htail
  · simp only [throughQuote, List.append_nil]
    exact .toEnd hq h
  · exact .toBackslash hq h
  · obtain ⟨rest, rfl⟩ := List.head?_eq_some_iff.1 htail
    rw [throughQuote_quote hq]
    exact .closed hq h
  · obtain ⟨rest, rfl⟩ := List.head?_eq_some_iff.1 htail
    simp only [throughQuote_feed, List.append_nil]
    exact .upToFeed hq h

theorem isString_iff {quote : Char} {inside rest : Text} :
    IsString (quote :: inside) rest ↔
      isQuote quote = true ∧ throughQuote quote (inside ++ rest) = (inside, rest) := by
  constructor
  · intro h
    cases h with
    | closed hq h =>
      rw [List.append_assoc, throughQuote_inside h, List.singleton_append, throughQuote_quote hq]
      exact ⟨hq, rfl⟩
    | upToFeed hq h =>
      rw [throughQuote_inside h, throughQuote_feed, List.append_nil]
      exact ⟨hq, rfl⟩
    | toEnd hq h =>
      rw [throughQuote_inside h]
      exact ⟨hq, by simp [throughQuote]⟩
    | toBackslash hq h =>
      rw [List.append_assoc, throughQuote_inside h]
      exact ⟨hq, by simp [throughQuote]⟩
  · rintro ⟨hq, h⟩
    have hshape := isString_through hq (inside ++ rest)
    rwa [h] at hshape

/-! ## Words -/

theorem head?_append_take (a b : Text) : (a ++ b.take 1).head? = (a ++ b).head? := by
  cases a with
  | nil => cases b <;> rfl
  | cons c a => rfl

/-- A run that ends before `rest` is read to its end. -/
theorem wordRest_run {run rest : Text} (hplain : ∀ c ∈ run, endsWord c = false)
    (hcomment : ¬ ['/', '*'] <:+: run ++ rest.take 1)
    (hmax : (∀ c ∈ rest.head?, endsWord c = true) ∨ ['/', '*'] <+: rest) :
    wordRest (run ++ rest) = (run, rest) := by
  induction run with
  | nil =>
    rcases hmax with hend | ⟨more, rfl⟩
    · cases rest with
      | nil => rfl
      | cons c rest => exact wordRest_of_endsWord (hend c rfl) rest
    · rfl
  | cons c run ih =>
    rw [List.cons_append] at hcomment
    obtain ⟨hc, htail⟩ := not_infix_cons.1 hcomment
    rw [head?_append_take] at hc
    rw [List.cons_append, wordRest_cons (hplain c List.mem_cons_self) hc,
      ih (fun d hd => hplain d (List.mem_cons_of_mem _ hd)) htail]

/-- A word holds no beginning of a block comment, nor does it end inside one. -/
theorem wordRest_no_comment (cs : Text) :
    ¬ ['/', '*'] <:+: (wordRest cs).1 ++ (wordRest cs).2.take 1 := by
  induction cs using word_induction with
  | nil => decide
  | block cs => exact fun h => absurd h.length_le (by simp [wordRest])
  | stop c cs hc =>
    rw [wordRest_of_endsWord hc]
    exact fun h => absurd h.length_le (by simp)
  | other c cs hc hslash ih =>
    rw [wordRest_cons hc hslash, List.cons_append]
    refine not_infix_cons.2 ⟨?_, ih⟩
    rw [head?_append_take, wordRest_append]
    exact hslash

theorem isWord_through {c : Char} {cs : Text} (hc : endsWord c = false)
    (hslash : c = '/' → cs.head? ≠ some '*') :
    IsWord (c :: (wordRest cs).1) (wordRest cs).2 := by
  refine ⟨by simp, ?_, ?_, ?_⟩
  · intro d hd
    rcases List.mem_cons.1 hd with rfl | hd
    · exact hc
    · exact wordRest_inside cs d hd
  · rw [List.cons_append]
    refine not_infix_cons.2 ⟨?_, wordRest_no_comment cs⟩
    rw [head?_append_take, wordRest_append]
    exact hslash
  · rcases wordRest_rest cs with h | ⟨more, h⟩
    · exact Or.inl h
    · exact Or.inr ⟨more, h.symm⟩

theorem isWord_iff {c : Char} {run rest : Text} :
    IsWord (c :: run) rest ↔ endsWord c = false ∧ (c = '/' → (run ++ rest).head? ≠ some '*') ∧
      wordRest (run ++ rest) = (run, rest) := by
  constructor
  · intro h
    have hcomment := h.no_comment
    rw [List.cons_append] at hcomment
    obtain ⟨hslash, htail⟩ := not_infix_cons.1 hcomment
    rw [head?_append_take] at hslash
    refine ⟨h.plain c List.mem_cons_self, hslash, ?_⟩
    exact wordRest_run (fun d hd => h.plain d (List.mem_cons_of_mem _ hd)) htail h.maximal
  · rintro ⟨hc, hslash, hrun⟩
    have hshape := isWord_through hc hslash
    rwa [hrun] at hshape

/-! ## The next piece -/

theorem markOf?_char (m : Mark) : markOf? m.char = some m := by cases m <;> decide

/-- A character that ends no word is no blank, mark or quote. -/
theorem endsWord_eq_false {c : Char} (h : endsWord c = false) :
    isAsciiBlank c = false ∧ markOf? c = none ∧ isQuote c = false := by
  refine ⟨isAsciiBlank_of_endsWord h, ?_, ?_⟩
  · refine Option.eq_none_iff_forall_ne_some.2 fun m hm => ?_
    rw [← markOf?_eq_some hm] at h
    cases m <;> exact absurd h (by decide)
  · refine Bool.eq_false_iff.2 fun hq => ?_
    rcases isQuote_iff.1 hq with rfl | rfl <;> exact absurd h (by decide)

theorem endsWord_of_startsText {place : Place} {c : Char} {cs : Text} (h : StartsText place c cs)
    (hq : isQuote c = false) : endsWord c = false := by
  have hmark := h.not_mark
  unfold markOf? at hmark
  split at hmark
  · simp at hmark
  · split at hmark
    · simp at hmark
    · split at hmark
      · simp at hmark
      · simp_all [endsWord, h.not_blank]

/-- What is cut off has its shape, and a double slash is read as the place says. -/
theorem CutsOff.shaped {place : Place} {c : Char} {cs rest : Text} {p : Piece}
    (h : CutsOff place c cs p rest) : p.Shaped rest ∧
      (p.isLineComment = true → place.opensLineComment = true) ∧
      (p.isText = true → ['/', '/'] <+: c :: cs → place.opensLineComment = false) := by
  cases h with
  | blank hb => exact ⟨hb, by simp [Piece.isLineComment], by simp [Piece.isText]⟩
  | mark hm => exact ⟨trivial, by simp [Piece.isLineComment], by simp [Piece.isText]⟩
  | block cs =>
    exact ⟨isBlockComment_through cs, by simp [Piece.isLineComment], by simp [Piece.isText]⟩
  | line cs ho => exact ⟨isLineComment_through cs, fun _ => ho, by simp [Piece.isText]⟩
  | quoted hs hq =>
    refine ⟨isString_through hq cs, by simp [Piece.isLineComment], fun _ hslash => ?_⟩
    have hc : '/' = c := (List.cons_prefix_cons.1 hslash).1
    rw [← hc] at hq
    exact absurd hq (by decide)
  | word hs hq =>
    refine ⟨isWord_through (endsWord_of_startsText hs hq) hs.not_block,
      by simp [Piece.isLineComment], ?_⟩
    rintro - ⟨more, hmore⟩
    obtain ⟨rfl, rfl⟩ := List.cons.inj hmore
    exact Bool.eq_false_iff.2 fun ho => hs.not_line rfl ho rfl

/-- A word or a string begins where its shape does. -/
theorem nextPiece_of_text {place : Place} {c : Char} {cs rest : Text} {p : Piece}
    (ht : p.isText = true) (hchars : c :: cs = p.chars ++ rest) (hshape : p.Shaped rest)
    (hslash : ['/', '/'] <+: c :: cs → place.opensLineComment = false) :
    nextPiece place c cs = (p, rest) := by
  have hline : c = '/' → place.opensLineComment = true → cs.head? ≠ some '/' := by
    rintro rfl ho hhead
    obtain ⟨more, rfl⟩ := List.head?_eq_some_iff.1 hhead
    exact absurd (hslash ⟨more, rfl⟩) (by rw [ho]; decide)
  cases p with
  | blank | blockComment | lineComment | mark => simp [Piece.isText] at ht
  | quoted chars =>
    cases chars with
    | nil => cases hshape
    | cons q inside =>
      obtain ⟨rfl, rfl⟩ := List.cons.inj hchars
      obtain ⟨hq, hinside⟩ := isString_iff.1 hshape
      have hplain : isAsciiBlank c = false ∧ markOf? c = none ∧ c ≠ '/' := by
        rcases isQuote_iff.1 hq with rfl | rfl <;> decide
      have hs : StartsText place c (inside ++ rest) :=
        ⟨hplain.1, hplain.2.1, fun hc => absurd hc hplain.2.2, hline⟩
      show nextPiece place c (inside ++ rest) = _
      rw [hs.nextPiece_eq, nextText, if_pos hq, hinside]
  | word chars =>
    cases chars with
    | nil => exact absurd rfl hshape.ne_nil
    | cons d run =>
      obtain ⟨rfl, rfl⟩ := List.cons.inj hchars
      obtain ⟨hd, hblock, hrun⟩ := isWord_iff.1 hshape
      obtain ⟨hb, hm, hq⟩ := endsWord_eq_false hd
      have hs : StartsText place c (run ++ rest) := ⟨hb, hm, hblock, hline⟩
      show nextPiece place c (run ++ rest) = _
      rw [hs.nextPiece_eq, nextText, if_neg (by rw [hq]; decide), hrun]

/-- **The next piece** is the only one that has its shape at the front of the text, where a
    double slash opens a comment or not as the place says. -/
theorem nextPiece_eq_iff {place : Place} {c : Char} {cs rest : Text} {p : Piece} :
    nextPiece place c cs = (p, rest) ↔ c :: cs = p.chars ++ rest ∧ p.Shaped rest ∧
      (p.isLineComment = true → place.opensLineComment = true) ∧
      (p.isText = true → ['/', '/'] <+: c :: cs → place.opensLineComment = false) := by
  constructor
  · intro h
    have happend := nextPiece_append place c cs
    rw [h] at happend
    exact ⟨happend.symm, (cutsOff_of_nextPiece h).shaped⟩
  · rintro ⟨hchars, hshape, hline, hslash⟩
    cases p with
    | blank d =>
      obtain ⟨rfl, rfl⟩ := List.cons.inj hchars
      exact nextPiece_blank hshape place _
    | mark m =>
      obtain ⟨rfl, rfl⟩ := List.cons.inj hchars
      exact nextPiece_mark (markOf?_char m) place _
    | blockComment chars =>
      obtain ⟨inside, rfl⟩ : ∃ inside, chars = '/' :: '*' :: inside := by
        cases hshape with
        | closed | unclosed => exact ⟨_, rfl⟩
      obtain ⟨rfl, rfl⟩ := List.cons.inj hchars
      show nextPiece place '/' ('*' :: (inside ++ rest)) = _
      rw [nextPiece_block, isBlockComment_iff.1 hshape]
    | lineComment chars =>
      obtain ⟨inside, rfl⟩ : ∃ inside, chars = '/' :: '/' :: inside := by
        cases hshape with
        | ended | last => exact ⟨_, rfl⟩
      obtain ⟨rfl, rfl⟩ := List.cons.inj hchars
      show nextPiece place '/' ('/' :: (inside ++ rest)) = _
      rw [nextPiece_line (hline rfl), isLineComment_iff.1 hshape]
    | quoted chars => exact nextPiece_of_text rfl hchars hshape (hslash rfl)
    | word chars => exact nextPiece_of_text rfl hchars hshape (hslash rfl)

end StyleServer
