/-
  Pieces of a text that goes on.

  Cutting looks at most one character ahead, so a piece that is not the last one
  does not depend on what stands behind the text.

  * `nextPiece_append_right`: a piece with text behind it stays as it is.
  * `Piece.EndsBefore`: the last piece stays as it is, too.
  * `Text.piecesFrom_append`: then the pieces of two texts are those of the first
    and those of the second.
  * `Text.piecesFrom_statementStart`: at the start of a statement, it does not
    matter whether a line begins there; so behind a mark, a text is cut as if it
    stood alone (`Text.pieces_append`).
-/
import StyleServer.Piece.Cut

namespace StyleServer

/-! ## The inside of a piece -/

theorem throughCommentEnd_append_right {cs : Text} (after : Text)
    (h : (throughCommentEnd cs).2 ≠ []) :
    throughCommentEnd (cs ++ after) =
      ((throughCommentEnd cs).1, (throughCommentEnd cs).2 ++ after) := by
  fun_induction throughCommentEnd cs with
  | case1 => simp at h
  | case2 rest => simp [throughCommentEnd]
  | case3 c cs hne inside rest heq ih =>
    have ih := ih (by simpa [heq] using h)
    rw [heq] at ih
    rw [List.cons_append, throughCommentEnd, ih]
    intro rest' hc hcs
    cases cs with
    | nil => simp [throughCommentEnd] at heq; simp [heq] at h
    | cons d cs =>
      simp only [List.cons_append, List.cons.injEq] at hcs
      exact hne cs hc (by rw [hcs.1])

theorem throughNewline_append_right {cs : Text} (after : Text) (h : (throughNewline cs).2 ≠ []) :
    throughNewline (cs ++ after) = ((throughNewline cs).1, (throughNewline cs).2 ++ after) := by
  fun_induction throughNewline cs with
  | case1 => simp at h
  | case2 cs => simp [throughNewline]
  | case3 c cs hc inside rest heq ih =>
    have ih := ih (by simpa [heq] using h)
    rw [heq] at ih
    rw [List.cons_append, throughNewline, if_neg hc, ih]

theorem throughQuote_cons {quote c : Char} (hc : c ≠ '\\') (cs : Text) :
    throughQuote quote (c :: cs) =
      if c = '\n' then ([], c :: cs)
      else if c = quote then ([c], cs)
      else (c :: (throughQuote quote cs).1, (throughQuote quote cs).2) := by
  rw [throughQuote]
  · exact fun h _ => hc h
  · exact fun _ _ h _ => hc h

/-- Induction along the characters of a string, where a backslash takes the next one along. -/
@[elab_as_elim]
theorem escapes_induction {motive : Text → Prop} (cs : Text) (nil : motive [])
    (lone : motive ['\\']) (escape : ∀ c cs, motive cs → motive ('\\' :: c :: cs))
    (other : ∀ c cs, c ≠ '\\' → motive cs → motive (c :: cs)) : motive cs :=
  match cs with
  | [] => nil
  | [c] => if hc : c = '\\' then hc ▸ lone else other c [] hc nil
  | c :: d :: cs =>
    if hc : c = '\\' then hc ▸ escape d cs (escapes_induction cs nil lone escape other)
    else other c (d :: cs) hc (escapes_induction (d :: cs) nil lone escape other)

theorem throughQuote_append_right {quote : Char} {cs : Text} (after : Text)
    (h : (throughQuote quote cs).2 ≠ []) :
    throughQuote quote (cs ++ after) =
      ((throughQuote quote cs).1, (throughQuote quote cs).2 ++ after) := by
  -- A character that is no backslash is read by `throughQuote_cons`.
  have hbackslash : ∀ {c : Char} {cs : Text}, (c = '\\' → cs = [] → False) →
      (∀ d ds, c = '\\' → cs = d :: ds → False) → c ≠ '\\' := by
    rintro c cs h₁ h₂ rfl
    cases cs with
    | nil => exact h₁ rfl rfl
    | cons d ds => exact h₂ d ds rfl rfl
  induction cs using throughQuote.induct quote with
  | case1 => simp [throughQuote] at h
  | case2 => simp [throughQuote] at h
  | case3 c cs inside rest heq ih =>
    simp only [throughQuote] at h ⊢
    simp only [List.cons_append, throughQuote, ih h]
  | case4 cs _ _ => simp [throughQuote]
  | case5 cs h₁ h₂ hn =>
    rw [List.cons_append, throughQuote_cons (hbackslash h₁ h₂), throughQuote_cons (hbackslash h₁ h₂)]
    simp [hn]
  | case6 c cs h₁ h₂ hn hq inside rest heq ih =>
    rw [throughQuote_cons (hbackslash h₁ h₂), if_neg hn, if_neg hq] at h ⊢
    rw [List.cons_append, throughQuote_cons (hbackslash h₁ h₂), if_neg hn, if_neg hq, ih h]

theorem wordRest_of_endsWord {c : Char} (hc : endsWord c = true) (cs : Text) :
    wordRest (c :: cs) = ([], c :: cs) := by
  rw [wordRest, if_pos hc]
  rintro rest rfl -
  exact absurd hc (by decide)

theorem wordRest_cons {c : Char} {cs : Text} (hc : endsWord c = false)
    (hne : c = '/' → cs.head? ≠ some '*') :
    wordRest (c :: cs) = (c :: (wordRest cs).1, (wordRest cs).2) := by
  rw [wordRest, if_neg (by simp [hc])]
  rintro rest rfl rfl
  exact hne rfl rfl

/-- Induction along the characters of a word, up to what ends it. -/
@[elab_as_elim]
theorem word_induction {motive : Text → Prop} (cs : Text) (nil : motive [])
    (block : ∀ cs, motive ('/' :: '*' :: cs)) (stop : ∀ c cs, endsWord c = true → motive (c :: cs))
    (other : ∀ c cs, endsWord c = false → (c = '/' → cs.head? ≠ some '*') → motive cs →
      motive (c :: cs)) : motive cs := by
  induction cs with
  | nil => exact nil
  | cons c cs ih =>
    cases hc : endsWord c with
    | true => exact stop c cs hc
    | false =>
      by_cases hb : c = '/' ∧ cs.head? = some '*'
      · obtain ⟨rest, rfl⟩ := List.head?_eq_some_iff.1 hb.2
        exact hb.1 ▸ block rest
      · exact other c cs hc (fun h₁ h₂ => hb ⟨h₁, h₂⟩) ih

theorem wordRest_append_right {cs : Text} (after : Text)
    (h : (wordRest cs).2 ≠ [] ∨ ∀ c ∈ after.head?, endsWord c = true) :
    wordRest (cs ++ after) = ((wordRest cs).1, (wordRest cs).2 ++ after) := by
  induction cs using wordRest.induct with
  | case1 =>
    cases after with
    | nil => rfl
    | cons c cs =>
      rcases h with h | h
      · exact absurd rfl h
      · rw [List.nil_append, wordRest_of_endsWord (h c rfl)]; rfl
  | case2 cs => rfl
  | case3 c cs _ hc => rw [List.cons_append, wordRest_of_endsWord hc, wordRest_of_endsWord hc]; rfl
  | case4 c cs hne hc inside rest heq ih =>
    have hc : endsWord c = false := by simpa using hc
    have hslash : c = '/' → cs.head? ≠ some '*' := by
      intro hs hstar
      obtain ⟨rest', rfl⟩ := List.head?_eq_some_iff.1 hstar
      exact hne rest' hs rfl
    have hslash' : c = '/' → (cs ++ after).head? ≠ some '*' := by
      intro hs hstar
      cases cs with
      | cons d ds => exact hslash hs hstar
      | nil =>
        rw [wordRest_cons hc hslash] at h
        rcases h with h | h
        · exact h rfl
        · exact absurd (h '*' hstar) (by decide)
    rw [wordRest_cons hc hslash] at h ⊢
    rw [List.cons_append, wordRest_cons hc hslash', ih h]

/-! ## The next piece -/

/-- A string or a word begins with `c` in front of `cs`. -/
structure StartsText (place : Place) (c : Char) (cs : Text) : Prop where
  not_blank : isAsciiBlank c = false
  not_mark : markOf? c = none
  not_block : c = '/' → cs.head? ≠ some '*'
  not_line : c = '/' → place.opensLineComment = true → cs.head? ≠ some '/'

theorem isAsciiBlank_mark {c : Char} {m : Mark} (h : markOf? c = some m) :
    isAsciiBlank c = false := by
  rw [← markOf?_eq_some h]
  cases m <;> decide

theorem nextPiece_blank {c : Char} (h : isAsciiBlank c = true) (place : Place) (cs : Text) :
    nextPiece place c cs = (.blank c, cs) := by
  unfold nextPiece
  rw [if_pos h]

theorem nextPiece_mark {c : Char} {m : Mark} (h : markOf? c = some m) (place : Place) (cs : Text) :
    nextPiece place c cs = (.mark m, cs) := by
  unfold nextPiece
  rw [if_neg (by simp [isAsciiBlank_mark h]), h]

theorem nextPiece_block (place : Place) (cs : Text) :
    nextPiece place '/' ('*' :: cs) =
      (.blockComment ('/' :: '*' :: (throughCommentEnd cs).1), (throughCommentEnd cs).2) := rfl

theorem nextPiece_line {place : Place} (h : place.opensLineComment = true) (cs : Text) :
    nextPiece place '/' ('/' :: cs) =
      (.lineComment ('/' :: '/' :: (throughNewline cs).1), (throughNewline cs).2) := by
  show (if place.opensLineComment = true then _ else _) = _
  rw [if_pos h]

theorem StartsText.nextPiece_eq {place : Place} {c : Char} {cs : Text}
    (h : StartsText place c cs) : nextPiece place c cs = nextText c cs := by
  unfold nextPiece
  rw [if_neg (by simp [h.not_blank]), h.not_mark]
  dsimp only
  split
  · exact absurd rfl (h.not_block rfl)
  · split
    · next ho => exact absurd rfl (h.not_line rfl ho)
    · rfl
  · rfl

/-- What the next piece can be. -/
theorem nextPiece_cases (place : Place) (c : Char) (cs : Text) :
    isAsciiBlank c = true ∨ (∃ m, markOf? c = some m) ∨ (c = '/' ∧ ∃ rest, cs = '*' :: rest) ∨
      (c = '/' ∧ place.opensLineComment = true ∧ ∃ rest, cs = '/' :: rest) ∨
      StartsText place c cs := by
  by_cases hb : isAsciiBlank c = true
  · exact Or.inl hb
  by_cases hm : ∃ m, markOf? c = some m
  · exact Or.inr (Or.inl hm)
  by_cases hk : c = '/' ∧ cs.head? = some '*'
  · obtain ⟨rest, hr⟩ := List.head?_eq_some_iff.1 hk.2
    exact Or.inr (Or.inr (Or.inl ⟨hk.1, rest, hr⟩))
  by_cases hl : c = '/' ∧ place.opensLineComment = true ∧ cs.head? = some '/'
  · obtain ⟨rest, hr⟩ := List.head?_eq_some_iff.1 hl.2.2
    exact Or.inr (Or.inr (Or.inr (Or.inl ⟨hl.1, hl.2.1, rest, hr⟩)))
  refine Or.inr (Or.inr (Or.inr (Or.inr ⟨by simpa using hb, ?_, ?_, ?_⟩)))
  · exact Option.eq_none_iff_forall_ne_some.2 fun m h => hm ⟨m, h⟩
  · exact fun hc h => hk ⟨hc, h⟩
  · exact fun hc ho h => hl ⟨hc, ho, h⟩

/-- The piece that is cut off from the front of a text, and the rest behind it. -/
inductive CutsOff (place : Place) : Char → Text → Piece → Text → Prop where
  | blank {c : Char} {cs : Text} (hb : isAsciiBlank c = true) : CutsOff place c cs (.blank c) cs
  | mark {c : Char} {cs : Text} {m : Mark} (hm : markOf? c = some m) : CutsOff place c cs (.mark m) cs
  | block (cs : Text) : CutsOff place '/' ('*' :: cs)
      (.blockComment ('/' :: '*' :: (throughCommentEnd cs).1)) (throughCommentEnd cs).2
  | line (cs : Text) (ho : place.opensLineComment = true) : CutsOff place '/' ('/' :: cs)
      (.lineComment ('/' :: '/' :: (throughNewline cs).1)) (throughNewline cs).2
  | quoted {c : Char} {cs : Text} (hs : StartsText place c cs) (hq : isQuote c = true) :
      CutsOff place c cs (.quoted (c :: (throughQuote c cs).1)) (throughQuote c cs).2
  | word {c : Char} {cs : Text} (hs : StartsText place c cs) (hq : isQuote c = false) :
      CutsOff place c cs (.word (c :: (wordRest cs).1)) (wordRest cs).2

theorem cutsOff_of_nextPiece {place : Place} {c : Char} {cs rest : Text} {p : Piece}
    (h : nextPiece place c cs = (p, rest)) : CutsOff place c cs p rest := by
  rcases nextPiece_cases place c cs with
    hb | ⟨m, hm⟩ | ⟨rfl, more, rfl⟩ | ⟨rfl, ho, more, rfl⟩ | hs
  · cases (nextPiece_blank hb place cs).symm.trans h
    exact .blank hb
  · cases (nextPiece_mark hm place cs).symm.trans h
    exact .mark hm
  · cases (nextPiece_block place more).symm.trans h
    exact .block more
  · cases (nextPiece_line ho more).symm.trans h
    exact .line more ho
  · rw [hs.nextPiece_eq, nextText] at h
    cases hq : isQuote c with
    | true =>
      simp only [hq, if_true] at h
      cases h
      exact .quoted hs hq
    | false =>
      simp only [hq, Bool.false_eq_true, if_false] at h
      cases h
      exact .word hs hq

theorem nextText_append_right {c : Char} {cs : Text} (after : Text) (h : (nextText c cs).2 ≠ []) :
    nextText c (cs ++ after) = ((nextText c cs).1, (nextText c cs).2 ++ after) := by
  unfold nextText at h ⊢
  split
  · next hq =>
    rw [if_pos hq] at h
    simp only [throughQuote_append_right after h]
  · next hq =>
    rw [if_neg hq] at h
    simp only [wordRest_append_right after (Or.inl h)]

/-- A piece with text behind it does not depend on what follows that text. -/
theorem nextPiece_append_right {place : Place} {c : Char} {cs : Text} (after : Text)
    (h : (nextPiece place c cs).2 ≠ []) :
    nextPiece place c (cs ++ after) =
      ((nextPiece place c cs).1, (nextPiece place c cs).2 ++ after) := by
  rcases nextPiece_cases place c cs with
    hb | ⟨m, hm⟩ | ⟨rfl, rest, rfl⟩ | ⟨rfl, ho, rest, rfl⟩ | ht
  · rw [nextPiece_blank hb, nextPiece_blank hb]
  · rw [nextPiece_mark hm, nextPiece_mark hm]
  · rw [nextPiece_block] at h ⊢
    rw [List.cons_append, nextPiece_block, throughCommentEnd_append_right after h]
  · rw [nextPiece_line ho] at h ⊢
    rw [List.cons_append, nextPiece_line ho, throughNewline_append_right after h]
  · rw [ht.nextPiece_eq] at h ⊢
    have hne : cs ≠ [] := by
      rintro rfl
      refine h ?_
      unfold nextText
      split <;> rfl
    have hhead : (cs ++ after).head? = cs.head? := by
      obtain ⟨d, ds, rfl⟩ := List.exists_cons_of_ne_nil hne
      rfl
    have ht' : StartsText place c (cs ++ after) :=
      ⟨ht.not_blank, ht.not_mark, by rw [hhead]; exact ht.not_block, by rw [hhead]; exact ht.not_line⟩
    rw [ht'.nextPiece_eq, nextText_append_right after h]

/-! ## The last piece -/

/-- A piece that ends a text stays as it is in front of `after`. -/
def Piece.EndsBefore (p : Piece) (after : Text) : Prop :=
  ∀ place c cs, nextPiece place c cs = (p, []) → nextPiece place c (cs ++ after) = (p, after)

theorem nextText_isText (c : Char) (cs : Text) : (nextText c cs).1.isText = true := by
  unfold nextText
  split <;> rfl

theorem Piece.endsBefore_of_single {p : Piece} (ht : p.isText = false) (hc : p.isComment = false)
    (after : Text) : p.EndsBefore after := by
  intro place c cs h
  rcases nextPiece_cases place c cs with
    hb | ⟨m, hm⟩ | ⟨rfl, rest, rfl⟩ | ⟨rfl, ho, rest, rfl⟩ | hs
  · rw [nextPiece_blank hb, Prod.mk.injEq] at h
    rw [nextPiece_blank hb, h.1, h.2]; rfl
  · rw [nextPiece_mark hm, Prod.mk.injEq] at h
    rw [nextPiece_mark hm, h.1, h.2]; rfl
  · rw [nextPiece_block, Prod.mk.injEq] at h
    simp [← h.1, Piece.isComment] at hc
  · rw [nextPiece_line ho, Prod.mk.injEq] at h
    simp [← h.1, Piece.isComment] at hc
  · rw [hs.nextPiece_eq] at h
    have := nextText_isText c cs
    rw [h, ht] at this
    exact absurd this (by decide)

/-- A word ends in front of a character that ends words. -/
theorem Piece.word_endsBefore (w : Text) {after : Text}
    (ha : ∀ c ∈ after.head?, endsWord c = true) : (Piece.word w).EndsBefore after := by
  intro place c cs h
  rcases nextPiece_cases place c cs with
    hb | ⟨m, hm⟩ | ⟨rfl, rest, rfl⟩ | ⟨rfl, ho, rest, rfl⟩ | hs
  · simp [nextPiece_blank hb] at h
  · simp [nextPiece_mark hm] at h
  · simp [nextPiece_block] at h
  · simp [nextPiece_line ho] at h
  · have hhead : ∀ d, endsWord d = false → cs.head? ≠ some d → (cs ++ after).head? ≠ some d := by
      intro d hd hne
      cases cs with
      | cons e es => exact hne
      | nil => intro hd'; rw [ha d hd'] at hd; exact absurd hd (by decide)
    have hs' : StartsText place c (cs ++ after) :=
      ⟨hs.not_blank, hs.not_mark, fun hc => hhead '*' rfl (hs.not_block hc),
        fun hc ho => hhead '/' rfl (hs.not_line hc ho)⟩
    rw [hs.nextPiece_eq] at h
    rw [hs'.nextPiece_eq]
    unfold nextText at h ⊢
    by_cases hq : isQuote c = true
    · simp [hq] at h
    · simp only [hq, Bool.false_eq_true, if_false, Prod.mk.injEq, Piece.word.injEq] at h ⊢
      simp [wordRest_append_right after (Or.inr ha), h.1, h.2]

/-! ## All pieces -/

/-- The place behind pieces. -/
def Place.afterAll (place : Place) (ps : List Piece) : Place := ps.foldl Place.after place

namespace Text

theorem piecesFrom_cons {place : Place} {c : Char} {cs rest : Text} {p : Piece}
    (h : nextPiece place c cs = (p, rest)) :
    piecesFrom place (c :: cs) = p :: piecesFrom (place.after p) rest := by
  rw [piecesFrom, h]

/-- **Texts are cut one after the other** when the last piece of the first one ends in
    front of the second. -/
theorem piecesFrom_append {place : Place} {text after : Text}
    (h : ∀ p ∈ (piecesFrom place text).getLast?, p.EndsBefore after) :
    piecesFrom place (text ++ after) =
      piecesFrom place text ++ piecesFrom (place.afterAll (piecesFrom place text)) after := by
  induction place, text using piecesFrom.induct with
  | case1 place => simp [piecesFrom, Place.afterAll]
  | case2 place c cs ih =>
    have hsplit := piecesFrom_cons (Prod.eta (nextPiece place c cs)).symm
    rw [hsplit] at h
    by_cases hrest : (nextPiece place c cs).2 = []
    · have hp : nextPiece place c cs = ((nextPiece place c cs).1, []) := by rw [← hrest]
      have hlast : (nextPiece place c cs).1.EndsBefore after := h _ (by simp [hrest, piecesFrom])
      rw [hsplit, List.cons_append, piecesFrom_cons (hlast _ _ _ hp), hrest]
      simp [piecesFrom, Place.afterAll]
    · have ih := ih fun p hp => h p (by
        rw [List.getLast?_cons]
        simp only [Option.mem_def] at hp
        simp [hp])
      rw [hsplit, List.cons_append, piecesFrom_cons (nextPiece_append_right after hrest), ih]
      simp [Place.afterAll]

end Text

/-! ## The start of a statement -/

theorem nextPiece_congr {place place' : Place}
    (h : place.opensLineComment = place'.opensLineComment) (c : Char) (cs : Text) :
    nextPiece place c cs = nextPiece place' c cs := by
  unfold nextPiece
  rw [h]

theorem Place.after_text {p : Piece} (h : p.isText = true) (place : Place) :
    place.after p = ⟨false, false⟩ := by
  cases p with
  | quoted | word => rfl
  | blank | blockComment | lineComment | mark => simp [Piece.isText] at h

theorem Place.after_statementStart {p : Piece} (h : p.isText = false) {place : Place}
    (hs : place.statementStart = true) : (place.after p).statementStart = true := by
  cases p with
  | blank c => simp only [Place.after]; split <;> exact hs
  | blockComment | lineComment => exact hs
  | mark => rfl
  | quoted | word => simp [Piece.isText] at h

/-- **Where a statement begins, a line might as well begin:** double slashes open comments
    there in either case. -/
theorem Text.piecesFrom_statementStart {place place' : Place} (h : place.statementStart = true)
    (h' : place'.statementStart = true) (text : Text) :
    piecesFrom place text = piecesFrom place' text := by
  induction place, text using piecesFrom.induct generalizing place' with
  | case1 place => simp [piecesFrom]
  | case2 place c cs ih =>
    have hp : nextPiece place' c cs = nextPiece place c cs :=
      nextPiece_congr (by simp [Place.opensLineComment, h, h']) c cs
    rw [piecesFrom_cons (Prod.eta (nextPiece place c cs)).symm,
      piecesFrom_cons (hp.trans (Prod.eta (nextPiece place c cs)).symm)]
    cases ht : (nextPiece place c cs).1.isText with
    | true => rw [Place.after_text ht, Place.after_text ht]
    | false => rw [ih (Place.after_statementStart ht h) (Place.after_statementStart ht h')]

/-- Pieces behind the last of which a statement begins: there are none, or the last is a
    mark. -/
def Piece.EndWithMark (ps : List Piece) : Prop := ∀ p ∈ ps.getLast?, ∃ m, p = .mark m

theorem Place.afterAll_of_endWithMark {ps : List Piece} (h : Piece.EndWithMark ps) :
    (Place.origin.afterAll ps).statementStart = true := by
  rcases List.eq_nil_or_concat ps with rfl | ⟨init, p, rfl⟩
  · rfl
  · obtain ⟨m, rfl⟩ := h p (by simp)
    simp [afterAll, after]

/-- Behind a mark, a text is cut as if it stood alone. -/
theorem Text.pieces_append {a : Text} (h : Piece.EndWithMark a.pieces) (b : Text) :
    (a ++ b).pieces = a.pieces ++ b.pieces := by
  have hs : Place.origin.statementStart = true := rfl
  unfold pieces at h ⊢
  rw [piecesFrom_append, piecesFrom_statementStart (Place.afterAll_of_endWithMark h) hs]
  intro p hp
  obtain ⟨m, rfl⟩ := h p hp
  exact Piece.endsBefore_of_single rfl rfl b

theorem Piece.EndWithMark.append {ps qs : List Piece} (hp : EndWithMark ps) (hq : EndWithMark qs) :
    EndWithMark (ps ++ qs) := by
  intro p h
  rw [List.getLast?_append, Option.mem_def, Option.or_eq_some_iff] at h
  rcases h with h | ⟨-, h⟩
  · exact hq p h
  · exact hp p h

theorem Text.endWithMark_append {a b : Text} (ha : Piece.EndWithMark a.pieces)
    (hb : Piece.EndWithMark b.pieces) : Piece.EndWithMark (a ++ b).pieces := by
  rw [pieces_append ha]
  exact ha.append hb

end StyleServer
