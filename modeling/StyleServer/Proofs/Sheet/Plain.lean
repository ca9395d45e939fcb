/-
  Plain clauses: words, strings and blanks before a mark.

  * `isPlain`: a character that stands in words and between them, and opens neither a
    string nor a comment.
  * `Piece.Solid`: a blank, or a string or word without blanks at its ends.
  * `PlainClause`: a text that is cut into such pieces in front of any mark; plain
    characters make one, and so does a string between plain characters.
  * `PlainClause.contents_eq`: the body of such a clause is its text without the blanks
    around it.
-/
import StyleServer.Proofs.Sheet.Clause

namespace StyleServer

/-! ## Plain characters -/

/-- A character that is no quote, no mark and no slash. -/
def isPlain (c : Char) : Bool := !isQuote c && (markOf? c).isNone && c != '/'

theorem isPlain_iff {c : Char} :
    isPlain c = true ↔ isQuote c = false ∧ markOf? c = none ∧ c ≠ '/' := by
  simp [isPlain, and_assoc]

theorem isPlain_of_isAsciiBlank {c : Char} (h : isAsciiBlank c = true) : isPlain c = true := by
  simp only [isAsciiBlank, Bool.or_eq_true, beq_iff_eq] at h
  rcases h with (((rfl | rfl) | rfl) | rfl) | rfl <;> decide

theorem wordRest_inside (cs : Text) : ∀ c ∈ (wordRest cs).1, endsWord c = false := by
  fun_induction wordRest cs with
  | case1 => simp
  | case2 => simp
  | case3 => simp
  | case4 c cs hslash hc inside rest heq ih =>
    intro d hd
    rcases List.mem_cons.1 hd with rfl | hd
    · simpa using hc
    · rw [heq] at ih
      exact ih d hd

theorem isAsciiBlank_of_endsWord {c : Char} (h : endsWord c = false) : isAsciiBlank c = false := by
  simp only [endsWord, Bool.or_eq_false_iff] at h
  exact h.2

theorem endsWord_mark (m : Mark) : endsWord m.char = true := by
  cases m <;> decide

/-! ## Solid pieces -/

namespace Piece

/-- A blank, or a string or word without blanks at its ends. -/
inductive Solid : Piece → Prop where
  | blank {c : Char} (h : isAsciiBlank c = true) : Solid (blank c)
  | text {p : Piece} (isText : p.isText = true) (trimmed : Trimmed isAsciiBlank p.chars) : Solid p

theorem Solid.word {w : Text} (hne : w ≠ []) (h : ∀ c ∈ w, isAsciiBlank c = false) :
    Solid (word w) :=
  .text rfl (.of_forall hne h)

theorem Solid.mark?_eq {p : Piece} (h : p.Solid) : p.mark? = none := by
  cases h with
  | blank => rfl
  | text ht =>
    cases p with
    | mark => simp [isText] at ht
    | blank | blockComment | lineComment | quoted | word => rfl

/-- A solid piece that is no text is one blank. -/
theorem Solid.chars_blank {p : Piece} (h : p.Solid) (ht : p.isText = false) :
    ∀ c ∈ p.chars, isAsciiBlank c = true := by
  cases h with
  | blank hc => simpa [chars] using hc
  | text ht' => rw [ht] at ht'; simp at ht'

end Piece

/-- The piece at the front of plain characters: a blank, or a word with plain characters behind
    it. -/
theorem nextPiece_plain (place : Place) {c : Char} (hc : isPlain c = true) (cs : Text) :
    nextPiece place c cs = (.blank c, cs) ∧ isAsciiBlank c = true ∨
      nextPiece place c cs = (.word (c :: (wordRest cs).1), (wordRest cs).2) ∧
        isAsciiBlank c = false := by
  obtain ⟨hq, hm, hs⟩ := isPlain_iff.1 hc
  cases hb : isAsciiBlank c with
  | true => exact Or.inl ⟨nextPiece_blank hb place cs, rfl⟩
  | false =>
    have hst : StartsText place c cs := ⟨hb, hm, fun h => absurd h hs, fun h => absurd h hs⟩
    refine Or.inr ⟨?_, rfl⟩
    rw [hst.nextPiece_eq, nextText, if_neg (by simp [hq])]

namespace Text

/-- Plain characters are cut into blanks and words, which end before what ends words. -/
theorem piecesFrom_plain (place : Place) {text : Text} (h : ∀ c ∈ text, isPlain c = true) :
    ∀ p ∈ piecesFrom place text, p.Solid ∧
      ∀ after : Text, (∀ c ∈ after.head?, endsWord c = true) → p.EndsBefore after := by
  induction place, text using piecesFrom.induct with
  | case1 place => simp [piecesFrom]
  | case2 place c cs ih =>
    intro p hp
    rw [piecesFrom] at hp
    have hcs : ∀ d ∈ cs, isPlain d = true := fun d hd => h d (List.mem_cons_of_mem _ hd)
    rcases nextPiece_plain place (h c List.mem_cons_self) cs with ⟨hn, hb⟩ | ⟨hn, hb⟩
    · rw [hn] at hp ih
      rcases List.mem_cons.1 hp with rfl | hp
      · exact ⟨.blank hb, fun after _ => Piece.endsBefore_of_single rfl rfl after⟩
      · exact ih hcs p hp
    · rw [hn] at hp ih
      rcases List.mem_cons.1 hp with rfl | hp
      · refine ⟨.word (by simp) fun d hd => ?_, fun after ha => Piece.word_endsBefore _ ha⟩
        rcases List.mem_cons.1 hd with rfl | hd
        · exact hb
        · exact isAsciiBlank_of_endsWord (wordRest_inside cs d hd)
      · refine ih (fun d hd => hcs d ?_) p hp
        rw [← wordRest_append cs]
        exact List.mem_append_right _ hd

/-- Plain characters are cut apart from what ends words behind them. -/
theorem piecesFrom_plain_append (place : Place) {text after : Text}
    (h : ∀ c ∈ text, isPlain c = true) (ha : ∀ c ∈ after.head?, endsWord c = true) :
    ∃ ps, piecesFrom place (text ++ after) = ps ++ piecesFrom (place.afterAll ps) after ∧
      ∀ p ∈ ps, p.Solid := by
  refine ⟨piecesFrom place text, piecesFrom_append fun p hp => ?_, fun p hp => ?_⟩
  · exact (piecesFrom_plain place h p (List.mem_of_getLast? hp)).2 after ha
  · exact (piecesFrom_plain place h p hp).1

theorem piecesFrom_mark (place : Place) (m : Mark) : piecesFrom place [m.char] = [.mark m] := by
  have hm : markOf? m.char = some m := by cases m <;> rfl
  rw [piecesFrom_cons (nextPiece_mark hm place []), piecesFrom]

end Text

/-! ## Plain clauses -/

/-- The text is cut into solid pieces in front of any mark. -/
def PlainClause (text : Text) : Prop :=
  ∀ m : Mark, ∃ ps, (text ++ [m.char]).pieces = ps ++ [.mark m] ∧ ∀ p ∈ ps, p.Solid

theorem PlainClause.of_plain {text : Text} (h : ∀ c ∈ text, isPlain c = true) :
    PlainClause text := by
  intro m
  have hm : ∀ c ∈ [m.char].head?, endsWord c = true := by simpa using endsWord_mark m
  obtain ⟨ps, heq, hps⟩ := Text.piecesFrom_plain_append .origin h hm
  rw [Text.piecesFrom_mark] at heq
  exact ⟨ps, heq, hps⟩

theorem isQuote_iff {c : Char} : isQuote c = true ↔ c = '"' ∨ c = '\'' := by
  simp [isQuote]

/-- A string runs to its closing quote. -/
theorem throughQuote_closed {quote : Char} (hq : isQuote quote = true) {inside : Text}
    (h : ∀ c ∈ inside, c ≠ '\\' ∧ c ≠ '\n' ∧ c ≠ quote) (after : Text) :
    throughQuote quote (inside ++ quote :: after) = (inside ++ [quote], after) := by
  induction inside with
  | nil =>
    have hquote : quote ≠ '\\' ∧ quote ≠ '\n' := by
      rcases isQuote_iff.1 hq with rfl | rfl <;> decide
    rw [List.nil_append, throughQuote_cons hquote.1, if_neg hquote.2, if_pos rfl]
    rfl
  | cons c cs ih =>
    obtain ⟨hbackslash, hnewline, hquote⟩ := h c List.mem_cons_self
    rw [List.cons_append, throughQuote_cons hbackslash, if_neg hnewline, if_neg hquote,
      ih fun d hd => h d (List.mem_cons_of_mem _ hd)]
    rfl

theorem nextPiece_quoted (place : Place) {quote : Char} (hq : isQuote quote = true) {inside : Text}
    (h : ∀ c ∈ inside, c ≠ '\\' ∧ c ≠ '\n' ∧ c ≠ quote) (after : Text) :
    nextPiece place quote (inside ++ quote :: after) =
      (.quoted (quote :: (inside ++ [quote])), after) := by
  have hst : StartsText place quote (inside ++ quote :: after) := by
    rcases isQuote_iff.1 hq with rfl | rfl
    · exact ⟨by decide, by decide, fun h => absurd h (by decide), fun h => absurd h (by decide)⟩
    · exact ⟨by decide, by decide, fun h => absurd h (by decide), fun h => absurd h (by decide)⟩
  rw [hst.nextPiece_eq, nextText, if_pos hq, throughQuote_closed hq h]

/-- A string between plain characters. -/
theorem PlainClause.of_quoted {before inside after : Text} {quote : Char}
    (hbefore : ∀ c ∈ before, isPlain c = true) (hq : isQuote quote = true)
    (hinside : ∀ c ∈ inside, c ≠ '\\' ∧ c ≠ '\n' ∧ c ≠ quote)
    (hafter : ∀ c ∈ after, isPlain c = true) :
    PlainClause (before ++ quote :: (inside ++ quote :: after)) := by
  intro m
  have hm : ∀ c ∈ [m.char].head?, endsWord c = true := by simpa using endsWord_mark m
  have hquote : ∀ c ∈ (quote :: (inside ++ quote :: (after ++ [m.char]))).head?,
      endsWord c = true := by
    simp [endsWord, hq]
  obtain ⟨ps, heq, hps⟩ := Text.piecesFrom_plain_append .origin hbefore hquote
  rw [Text.piecesFrom_cons (nextPiece_quoted _ hq hinside (after ++ [m.char]))] at heq
  obtain ⟨qs, heq', hqs⟩ := Text.piecesFrom_plain_append
    ((Place.origin.afterAll ps).after (.quoted (quote :: (inside ++ [quote])))) hafter hm
  rw [heq', Text.piecesFrom_mark] at heq
  refine ⟨ps ++ .quoted (quote :: (inside ++ [quote])) :: qs, ?_, fun p hp => ?_⟩
  · rw [Text.pieces]
    simpa using heq
  · have hb : isAsciiBlank quote = false := by
      rcases isQuote_iff.1 hq with rfl | rfl <;> decide
    rcases List.mem_append.1 hp with hp | hp
    · exact hps p hp
    · rcases List.mem_cons.1 hp with rfl | hp
      · exact .text rfl ⟨by simp [Piece.chars], by simpa [Piece.chars] using hb,
          by simpa [Piece.chars, List.getLast?_cons] using hb⟩
      · exact hqs p hp

/-! ## Contents -/

/-- What a clause says, wherever it stands: the characters of its body, the gap and the
    mark. -/
def Clause.content (c : Clause) : Option Text × Text × Mark :=
  (c.body.map Fragment.chars, c.gap, c.mark)

/-- What the clauses of a text say. -/
def Text.contents (text : Text) : List (Option Text × Text × Mark) :=
  text.clauses.1.map Clause.content

theorem Clause.shift_content (n : Nat) (c : Clause) : (c.shift n).content = c.content := by
  cases hb : c.body <;> simp [content, shift, hb]

/-- Behind a mark, clauses say what they say alone. -/
theorem Text.contents_append {a : Text} (h : Piece.EndWithMark a.pieces) (b : Text) :
    (a ++ b).contents = a.contents ++ b.contents := by
  simp only [contents, clauses_append h, List.map_append, List.map_map]
  congr 2
  funext c
  exact Clause.shift_content a.byteLength c

/-- Plain characters alone make no clause. -/
theorem Text.contents_plain {text : Text} (h : ∀ c ∈ text, isPlain c = true) :
    text.contents = [] := by
  have hu : Piece.Unmarked text.pieces := fun p hp => (piecesFrom_plain .origin h p hp).1.mark?_eq
  rw [contents, Clause.clauses_eq_ofPieces, Clause.ofPieces_unmarked 0 hu]
  rfl

theorem Piece.allChars_blank {ps : List Piece} (h : ∀ p ∈ ps, p.Solid)
    (ht : ∀ p ∈ ps, p.isText = false) : ∀ c ∈ allChars ps, isAsciiBlank c = true := by
  intro c hc
  obtain ⟨p, hp, hc⟩ := List.mem_flatMap.1 hc
  exact (h p hp).chars_blank (ht p hp) c hc

/-- The body of solid pieces has no blanks at its ends. -/
theorem Clause.Body.trimmed {ps lead body gap : List Piece} (h : Body ps lead body gap)
    (hps : ∀ p ∈ ps, p.Solid) : Trimmed isAsciiBlank (Piece.allChars body) := by
  have htext : ∀ p ∈ body, p.isText = true → Trimmed isAsciiBlank p.chars := by
    intro p hp ht
    cases hps p (by rw [h.eq]; simp [hp]) with
    | blank => simp [Piece.isText] at ht
    | text _ htrimmed => exact htrimmed
  obtain ⟨p, rest, rfl, hp⟩ := h.first
  have hfirst := htext p List.mem_cons_self hp
  obtain ⟨init, q, hbody, hq⟩ := h.last
  refine ⟨?_, ?_, ?_⟩
  · rw [Piece.allChars_cons]
    exact List.append_ne_nil_of_left_ne_nil hfirst.ne_nil _
  · rw [Piece.allChars_cons]
    exact hfirst.first_append _
  · rw [hbody] at htext ⊢
    rw [Piece.allChars_append, Piece.allChars_cons, Piece.allChars_nil, List.append_nil]
    exact (htext q (by simp) hq).last_append _

namespace PlainClause

variable {lead body gap : Text}

theorem endWithMark {text : Text} (h : PlainClause text) (m : Mark) :
    Piece.EndWithMark (text ++ [m.char]).pieces := by
  obtain ⟨ps, hps, -⟩ := h m
  intro p hp
  rw [hps] at hp
  exact ⟨m, by simpa using hp.symm⟩

/-- The pieces before the mark are those of the clause. -/
theorem contents_of_pieces {text : Text} {m : Mark} {ps : List Piece}
    (heq : (text ++ [m.char]).pieces = ps ++ [.mark m]) (hps : ∀ p ∈ ps, p.Solid) :
    Piece.allChars ps = text ∧ Text.contents (text ++ [m.char]) =
      [((Clause.bodyOf? 0 ps).map Fragment.chars, Piece.allChars (Clause.gapPieces ps), m)] := by
  refine ⟨?_, ?_⟩
  · have h := Text.allChars_pieces (text ++ [m.char])
    rw [heq, Piece.allChars_append] at h
    exact List.append_cancel_right h
  · have hu : Piece.Unmarked ps := fun p hp => (hps p hp).mark?_eq
    rw [Text.contents, Clause.clauses_eq_ofPieces, heq, Clause.ofPieces_mark 0 hu]
    rfl

/-- The body of a plain clause is what its blanks leave. -/
theorem contents_eq (h : PlainClause (lead ++ (body ++ gap))) (hbody : Trimmed isAsciiBlank body)
    (hlead : ∀ c ∈ lead, isAsciiBlank c = true) (hgap : ∀ c ∈ gap, isAsciiBlank c = true)
    (m : Mark) :
    Text.contents (lead ++ (body ++ gap) ++ [m.char]) = [(some body, gap, m)] := by
  obtain ⟨ps, hps, hsolid⟩ := h m
  obtain ⟨hchars, hcontents⟩ := contents_of_pieces hps hsolid
  have ht : ∃ p ∈ ps, p.isText = true := by
    -- Without any, the first character of the body would be blank.
    refine Classical.byContradiction fun hnone => ?_
    obtain ⟨c, t, rfl⟩ := List.exists_cons_of_ne_nil hbody.ne_nil
    have hc := Piece.allChars_blank hsolid
      (fun q hq => by simpa using fun htq => hnone ⟨q, hq, htq⟩) c (by simp [hchars])
    rw [hbody.first c rfl] at hc
    simp at hc
  obtain ⟨lead', body', gap', hb⟩ := Clause.exists_body ht
  have heq : Piece.allChars lead' ++ (Piece.allChars body' ++ Piece.allChars gap') =
      lead ++ (body ++ gap) := by
    rw [← hchars, hb.eq]
    simp
  have hlead' := Piece.allChars_blank (fun q hq => hsolid q (by rw [hb.eq]; simp [hq])) hb.lead_blank
  have hgap' := Piece.allChars_blank (fun q hq => hsolid q (by rw [hb.eq]; simp [hq])) hb.gap_blank
  obtain ⟨rfl, rfl⟩ := (hb.trimmed hsolid).unique hbody heq hlead' hgap' hlead hgap
  rw [hcontents, hb.bodyOf?_eq, hb.gapPieces_eq]
  rfl

/-- A clause of blanks has no body. -/
theorem contents_blank (hlead : ∀ c ∈ lead, isAsciiBlank c = true) (m : Mark) :
    ∃ gap, Text.contents (lead ++ [m.char]) = [(none, gap, m)] := by
  obtain ⟨ps, hps, hsolid⟩ := of_plain (fun c hc => isPlain_of_isAsciiBlank (hlead c hc)) m
  obtain ⟨hchars, hcontents⟩ := contents_of_pieces hps hsolid
  refine ⟨Piece.allChars (Clause.gapPieces ps), ?_⟩
  rw [hcontents, Clause.bodyOf?_of_blank]
  · rfl
  · intro p hp
    cases hsolid p hp with
    | blank => rfl
    | text ht htrimmed =>
      obtain ⟨c, t, hc⟩ := List.exists_cons_of_ne_nil htrimmed.ne_nil
      have hb := htrimmed.first c (by rw [hc]; rfl)
      rw [hlead c (hchars ▸ List.mem_flatMap.2 ⟨p, hp, by rw [hc]; exact List.mem_cons_self⟩)] at hb
      simp at hb

end PlainClause

end StyleServer
