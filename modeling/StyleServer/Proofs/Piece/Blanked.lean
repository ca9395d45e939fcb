/-
  Texts with blanks for comments.

  * `Text.blanked`: each byte of a comment is replaced by a space; the line feed that ends
    a line comment stays.
  * `Text.pieces_blanked`: the text is cut where it was cut before, for a string or a word
    ends in front of a comment as it ends in front of a blank.
  * `tokens_blanked`: so the tokens are the same.
-/
import StyleServer.Proofs.Sheet.Clause

namespace StyleServer

/-- The blanks for a piece that is a comment, and any other piece alone. -/
def Piece.blanked : Piece → List Piece
  | .blockComment cs => List.replicate (Text.byteLength cs) (.blank ' ')
  | .lineComment cs =>
    if cs.getLast? = some '\n' then
      List.replicate (Text.byteLength cs - 1) (.blank ' ') ++ [.blank '\n']
    else List.replicate (Text.byteLength cs) (.blank ' ')
  | p => [p]

/-- The text with blanks for its comments. -/
def Text.blanked (text : Text) : Text := Piece.allChars (text.pieces.flatMap Piece.blanked)

theorem Piece.blanked_of_not_comment {p : Piece} (h : p.isComment = false) : p.blanked = [p] := by
  cases p with
  | blank | mark | quoted | word => rfl
  | blockComment | lineComment => simp [isComment] at h

theorem Piece.blanked_of_text {p : Piece} (h : p.isText = true) : p.blanked = [p] := by
  cases p with
  | quoted | word => rfl
  | blank | blockComment | lineComment | mark => simp [isText] at h

/-! ## A string or word before another rest -/

/-- `after` may take the place of `rest` behind a string or a word. -/
structure StandsFor (rest after : Text) : Prop where
  nil : rest = [] → after = []
  head : ∀ d ∈ rest.head?, d ≠ '/' → after.head? = some d
  block : ∀ more, rest = '/' :: '*' :: more → after.head? = some ' '

theorem throughQuote_replace {quote : Char} {cs after : Text}
    (h : StandsFor (throughQuote quote cs).2 after) :
    throughQuote quote ((throughQuote quote cs).1 ++ after) =
      ((throughQuote quote cs).1, after) := by
  induction cs using escapes_induction with
  | nil => rw [h.nil rfl]; rfl
  | lone => rw [h.nil rfl]; rfl
  | escape c cs ih =>
    simp only [throughQuote] at h ⊢
    simp only [List.cons_append, throughQuote, ih h]
  | other c cs hc ih =>
    rw [throughQuote_cons hc] at h ⊢
    by_cases hn : c = '\n'
    · -- The line feed that ends the string stays behind it.
      rw [if_pos hn] at h ⊢
      obtain ⟨after, rfl⟩ := List.head?_eq_some_iff.1 (h.head c rfl (by rw [hn]; decide))
      rw [List.nil_append, throughQuote_cons hc, if_pos hn]
    · by_cases hq : c = quote
      · rw [if_neg hn, if_pos hq, List.singleton_append, throughQuote_cons hc, if_neg hn, if_pos hq]
      · rw [if_neg hn, if_neg hq] at h ⊢
        rw [List.cons_append, throughQuote_cons hc, if_neg hn, if_neg hq, ih h]

/-- Behind a word stands what ends it. -/
theorem wordRest_rest (cs : Text) :
    (∀ d ∈ (wordRest cs).2.head?, endsWord d = true) ∨
      ∃ more, (wordRest cs).2 = '/' :: '*' :: more := by
  induction cs using word_induction with
  | nil => exact Or.inl (by simp [wordRest])
  | block cs => exact Or.inr ⟨cs, rfl⟩
  | stop c cs hc => exact Or.inl (by simp [wordRest_of_endsWord hc, hc])
  | other c cs hc hslash ih =>
    rw [wordRest_cons hc hslash]
    exact ih

theorem head?_wordRest_replace {cs after : Text} (h : ∀ d ∈ after.head?, endsWord d = true)
    {d : Char} (hd : endsWord d = false) (hhead : ((wordRest cs).1 ++ after).head? = some d) :
    cs.head? = some d := by
  cases hw : (wordRest cs).1 with
  | nil =>
    rw [hw] at hhead
    simp [h d hhead] at hd
  | cons e es =>
    rw [hw] at hhead
    rw [← wordRest_append cs, hw]
    exact hhead

theorem wordRest_replace {cs after : Text} (h : ∀ d ∈ after.head?, endsWord d = true) :
    wordRest ((wordRest cs).1 ++ after) = ((wordRest cs).1, after) := by
  have hafter : wordRest after = ([], after) := by
    cases after with
    | nil => rfl
    | cons d ds => exact wordRest_of_endsWord (h d rfl) ds
  induction cs using word_induction with
  | nil => exact hafter
  | block cs => exact hafter
  | stop c cs hc => rw [wordRest_of_endsWord hc]; exact hafter
  | other c cs hc hslash ih =>
    have hslash' : c = '/' → ((wordRest cs).1 ++ after).head? ≠ some '*' :=
      fun hs hstar => hslash hs (head?_wordRest_replace h (by decide) hstar)
    rw [wordRest_cons hc hslash, List.cons_append, wordRest_cons hc hslash', ih]

/-- What takes the place of the rest behind a word ends the word as well. -/
theorem StandsFor.endsWord {cs after : Text} (h : StandsFor (wordRest cs).2 after) :
    ∀ d ∈ after.head?, endsWord d = true := by
  intro d hd
  rcases wordRest_rest cs with hends | ⟨more, hmore⟩
  · cases hrest : (wordRest cs).2 with
    | nil => simp [h.nil hrest] at hd
    | cons e es =>
      have he : StyleServer.endsWord e = true := hends e (by simp [hrest])
      have hne : e ≠ '/' := by rintro rfl; exact absurd he (by decide)
      rw [h.head e (by simp [hrest]) hne] at hd
      obtain rfl := Option.some.inj hd
      exact he
  · rw [h.block more hmore] at hd
    obtain rfl := Option.some.inj hd
    decide

/-- A string or a word is cut off as before when something else stands for its rest. -/
theorem nextPiece_replace {place : Place} {c : Char} {cs after : Text} (hs : StartsText place c cs)
    (h : StandsFor (nextText c cs).2 after) :
    ∃ inside, (nextText c cs).1.chars = c :: inside ∧
      nextPiece place c (inside ++ after) = ((nextText c cs).1, after) := by
  cases hq : isQuote c with
  | true =>
    have hc : c ≠ '/' := by rintro rfl; exact absurd hq (by decide)
    have hs' : StartsText place c ((throughQuote c cs).1 ++ after) :=
      ⟨hs.not_blank, hs.not_mark, fun hc' => absurd hc' hc, fun hc' => absurd hc' hc⟩
    simp only [nextText, hq, if_true] at h ⊢
    refine ⟨_, rfl, ?_⟩
    rw [hs'.nextPiece_eq]
    simp only [nextText, hq, if_true, throughQuote_replace h]
  | false =>
    simp only [nextText, hq, Bool.false_eq_true, if_false] at h ⊢
    have hafter := h.endsWord
    have hs' : StartsText place c ((wordRest cs).1 ++ after) :=
      ⟨hs.not_blank, hs.not_mark,
        fun hc hstar => hs.not_block hc (head?_wordRest_replace hafter (by decide) hstar),
        fun hc ho hslash => hs.not_line hc ho (head?_wordRest_replace hafter (by decide) hslash)⟩
    refine ⟨_, rfl, ?_⟩
    rw [hs'.nextPiece_eq]
    simp only [nextText, hq, Bool.false_eq_true, if_false, wordRest_replace hafter]

/-! ## All pieces -/

theorem Piece.allChars_spaces (n : Nat) :
    allChars (List.replicate n (.blank ' ')) = List.replicate n ' ' := by
  induction n with
  | zero => rfl
  | succ n ih => rw [List.replicate_succ, allChars_cons, ih]; rfl

theorem Text.piecesFrom_spaces (place : Place) (n : Nat) (after : Text) :
    piecesFrom place (List.replicate n ' ' ++ after) =
      List.replicate n (.blank ' ') ++ piecesFrom place after := by
  induction n with
  | zero => rfl
  | succ n ih =>
    rw [List.replicate_succ, List.replicate_succ, List.cons_append,
      piecesFrom_cons (nextPiece_blank (by decide) place _), List.cons_append, ← ih]
    rfl

/-- A line comment that ends before the text does ends with a line feed. -/
theorem throughNewline_getLast? {cs : Text} (h : (throughNewline cs).2 ≠ []) :
    (throughNewline cs).1.getLast? = some '\n' := by
  fun_induction throughNewline cs with
  | case1 => simp at h
  | case2 cs => rfl
  | case3 c cs hc inside rest heq ih =>
    have ih := ih (by simpa [heq] using h)
    rw [heq] at ih
    simp only [List.getLast?_cons, ih, Option.getD_some]

namespace Text

/-- The pieces of a text, with blanks for comments. -/
def blankedFrom (place : Place) (text : Text) : List Piece :=
  (piecesFrom place text).flatMap Piece.blanked

theorem blankedFrom_cons (place : Place) (c : Char) (cs : Text) :
    blankedFrom place (c :: cs) = (nextPiece place c cs).1.blanked ++
      blankedFrom (place.after (nextPiece place c cs).1) (nextPiece place c cs).2 := by
  rw [blankedFrom, piecesFrom, List.flatMap_cons]
  rfl

/-- A text with blanks for its comments takes the place of the text. -/
theorem standsFor_blankedFrom (place : Place) (text : Text) :
    StandsFor text (Piece.allChars (blankedFrom place text)) := by
  cases text with
  | nil => exact ⟨fun _ => by simp [blankedFrom, piecesFrom], by simp, by simp⟩
  | cons c cs =>
    refine ⟨by simp, ?_, ?_⟩
    · intro d hd hne
      obtain rfl := Option.some.inj hd
      rw [blankedFrom_cons]
      rcases nextPiece_cases place c cs with hb | ⟨m, hm⟩ | ⟨rfl, -⟩ | ⟨rfl, -⟩ | hs
      · rw [nextPiece_blank hb]
        rfl
      · rw [nextPiece_mark hm, ← markOf?_eq_some hm]
        rfl
      · exact absurd rfl hne
      · exact absurd rfl hne
      · rw [hs.nextPiece_eq, Piece.blanked_of_text (nextText_isText c cs)]
        unfold nextText
        split <;> rfl
    · rintro more heq
      obtain ⟨rfl, rfl⟩ := List.cons.inj heq
      rw [blankedFrom_cons, nextPiece_block, Piece.blanked, byteLength_cons, Nat.add_comm]
      rfl

/-- **A text with blanks for its comments is cut where it was cut before.**  Induction along
    the pieces: the place behind the blanks is that behind the comment. -/
theorem piecesFrom_blankedFrom (place : Place) (text : Text) :
    piecesFrom place (Piece.allChars (blankedFrom place text)) = blankedFrom place text := by
  induction place, text using piecesFrom.induct with
  | case1 place => simp [blankedFrom, piecesFrom]
  | case2 place c cs ih =>
    rw [blankedFrom_cons]
    rcases nextPiece_cases place c cs with
      hb | ⟨m, hm⟩ | ⟨rfl, rest, rfl⟩ | ⟨rfl, ho, rest, rfl⟩ | hs
    · rw [nextPiece_blank hb] at ih ⊢
      show piecesFrom place (c :: Piece.allChars (blankedFrom _ cs)) = .blank c :: blankedFrom _ cs
      rw [piecesFrom_cons (nextPiece_blank hb place _)]
      exact congrArg _ ih
    · rw [nextPiece_mark hm] at ih ⊢
      obtain rfl := markOf?_eq_some hm
      show piecesFrom place (m.char :: Piece.allChars (blankedFrom _ cs)) = .mark m :: blankedFrom _ cs
      rw [piecesFrom_cons (nextPiece_mark hm place _)]
      exact congrArg _ ih
    · rw [nextPiece_block] at ih ⊢
      rw [Piece.blanked, Piece.allChars_append, Piece.allChars_spaces, piecesFrom_spaces]
      exact congrArg _ ih
    · rw [nextPiece_line ho] at ih ⊢
      rw [Piece.blanked]
      split
      · rw [Piece.allChars_append, Piece.allChars_append, Piece.allChars_spaces, List.append_assoc,
          List.append_assoc, piecesFrom_spaces]
        show _ ++ piecesFrom place ('\n' :: Piece.allChars (blankedFrom _ _)) = _ 
        rw [piecesFrom_cons (nextPiece_blank (by decide) place _)]
        exact congrArg (_ ++ .blank '\n' :: ·) ih
      · next hlast =>
        -- Without its line feed, the comment is the end of the text.
        have hrest : (throughNewline rest).2 = [] := Decidable.byContradiction fun hne =>
          hlast (by simp [List.getLast?_cons, throughNewline_getLast? hne])
        have hnil : blankedFrom (place.after (.lineComment ('/' :: '/' :: (throughNewline rest).1)))
            (throughNewline rest).2 = [] := by
          rw [hrest]
          simp [blankedFrom, piecesFrom]
        simp only [hnil, List.append_nil, Piece.allChars_spaces]
        have hspaces := piecesFrom_spaces place
          (byteLength ('/' :: '/' :: (throughNewline rest).1)) []
        simpa [piecesFrom] using hspaces
    · rw [hs.nextPiece_eq] at ih ⊢
      obtain ⟨inside, hchars, hpiece⟩ := nextPiece_replace hs
        (standsFor_blankedFrom (place.after (nextText c cs).1) (nextText c cs).2)
      rw [Piece.blanked_of_text (nextText_isText c cs), List.singleton_append, Piece.allChars_cons,
        hchars, List.cons_append, piecesFrom_cons hpiece, ih]

theorem pieces_blanked (text : Text) : text.blanked.pieces = text.pieces.flatMap Piece.blanked :=
  piecesFrom_blankedFrom .origin text

end Text

/-! ## Tokens -/

theorem Text.byteLength_spaces (n : Nat) : byteLength (List.replicate n ' ') = n := by
  induction n with
  | zero => rfl
  | succ n ih => rw [List.replicate_succ, byteLength_cons, ih, Nat.add_comm]; rfl

namespace Piece

/-- The blanks for a piece are as long as the piece. -/
theorem size_blanked (p : Piece) : Text.byteLength (allChars p.blanked) = p.size := by
  cases p with
  | blockComment cs => rw [blanked, allChars_spaces, Text.byteLength_spaces]; rfl
  | lineComment cs =>
    rw [blanked]
    split
    · next hlast =>
      have hpos : 0 < Text.byteLength cs := by
        cases cs with
        | nil => simp at hlast
        | cons c cs => exact Nat.add_pos_left c.utf8Size_pos _
      rw [allChars_append, allChars_spaces, Text.byteLength_append, Text.byteLength_spaces]
      exact Nat.sub_add_cancel hpos
    · rw [allChars_spaces, Text.byteLength_spaces]; rfl
  | blank | mark | quoted | word => simp [blanked, size]

theorem byteLength_blanked (ps : List Piece) :
    Text.byteLength (allChars (ps.flatMap blanked)) = Text.byteLength (allChars ps) := by
  induction ps with
  | nil => rfl
  | cons p ps ih =>
    rw [List.flatMap_cons, allChars_append, Text.byteLength_append, size_blanked, ih, allChars_cons,
      Text.byteLength_append]
    rfl

/-- There are only blanks for a comment. -/
theorem blank_of_mem_blanked {p q : Piece} (hp : p.isComment = true) (h : q ∈ p.blanked) :
    ∃ c, isAsciiBlank c = true ∧ q = .blank c := by
  cases p with
  | blockComment cs => exact ⟨' ', by decide, List.eq_of_mem_replicate h⟩
  | lineComment cs =>
    rw [blanked] at h
    split at h
    · rcases List.mem_append.1 h with h | h
      · exact ⟨' ', by decide, List.eq_of_mem_replicate h⟩
      · exact ⟨'\n', by decide, List.mem_singleton.1 h⟩
    · exact ⟨' ', by decide, List.eq_of_mem_replicate h⟩
  | blank | mark | quoted | word => simp [isComment] at hp

/-- Nothing but comments is changed. -/
theorem mem_blanked {p q : Piece} (h : q ∈ p.blanked) :
    q = p ∨ ∃ c, isAsciiBlank c = true ∧ q = .blank c := by
  by_cases hp : p.isComment = true
  · exact .inr (blank_of_mem_blanked hp h)
  · rw [blanked_of_not_comment (by simpa using hp)] at h
    exact .inl (List.mem_singleton.1 h)

end Piece

theorem tokensFrom_blanked (offset : Nat) (ps : List Piece) :
    tokensFrom offset (ps.flatMap Piece.blanked) = tokensFrom offset ps := by
  induction ps generalizing offset with
  | nil => rfl
  | cons p ps ih =>
    rw [List.flatMap_cons, tokensFrom_append, Piece.size_blanked, ih]
    have hnone : ∀ n, tokensFrom offset (List.replicate n (.blank ' ')) = [] := fun n =>
      tokensFrom_blank offset (fun q hq => by rw [List.eq_of_mem_replicate hq]; rfl)
        fun q hq => by rw [List.eq_of_mem_replicate hq]; rfl
    cases p with
    | blockComment cs => rw [Piece.blanked, hnone]; rfl
    | lineComment cs =>
      rw [Piece.blanked]
      split
      · rw [tokensFrom_append, hnone]; rfl
      · rw [hnone]; rfl
    | blank | mark | quoted | word => rfl

/-- **Comments leave no trace in the tokens.** -/
theorem tokens_blanked (text : Text) : tokens text.blanked = tokens text := by
  rw [tokens, Text.pieces_blanked, tokensFrom_blanked]
  rfl

end StyleServer
