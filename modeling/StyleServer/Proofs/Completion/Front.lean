/-
  What stands behind an offset does not decide on what is typed there.

  Cutting a text into pieces looks ahead: for the second character of `/*` and `//`, for the end
  of a comment, for a closing quote.  So a text that ends at an offset may be cut into other
  pieces there than one that goes on.  No mark before the offset depends on it.

  * `throughCommentEnd_covers`, `throughNewline_covers`, `throughQuote_covers`: what reaches the
    end of a text goes at least as far in a longer one; `wordRest_covers`: so does a word, but
    for a slash that a block comment takes from it.
  * `Piece.CutShort`, `Text.piecesFrom_cutShort`: the pieces of a text are those of a longer one,
    cut short where no mark stands.
  * `filter_tokens_append`, `Cursor.before_append`: the marks before the offset, and the place
    that they lead to.
  * `completionContext_append`, `completionContext_decided`: what is typed at an offset.
-/
import StyleServer.Proofs.Bytewise.Bytes
import StyleServer.Proofs.Completion.Context
import Mathlib.Data.List.Infix

namespace StyleServer

/-! ## The inside of a piece -/

theorem throughCommentEnd_covers {cs : Text} (h : (throughCommentEnd cs).2 = []) (after : Text) :
    cs <+: (throughCommentEnd (cs ++ after)).1 := by
  fun_induction throughCommentEnd cs with
  | case1 => exact List.nil_prefix
  | case2 rest =>
    obtain rfl : rest = [] := h
    exact List.prefix_rfl
  | case3 c cs hne inside rest heq ih =>
    by_cases hend : c = '*' ∧ (cs ++ after).head? = some '/'
    · -- The end of the comment begins with the last character.
      obtain ⟨rfl, hslash⟩ := hend
      cases cs with
      | nil =>
        obtain ⟨more, rfl⟩ := List.head?_eq_some_iff.1 hslash
        exact ⟨['/'], rfl⟩
      | cons d cs =>
        obtain rfl : d = '/' := Option.some.inj hslash
        exact absurd rfl (hne cs rfl)
    · rw [List.cons_append, throughCommentEnd_cons fun h₁ h₂ => hend ⟨h₁, h₂⟩]
      exact List.cons_prefix_cons.2 ⟨rfl, ih (by rw [heq]; exact h)⟩

theorem throughNewline_covers {cs : Text} (h : (throughNewline cs).2 = []) (after : Text) :
    cs <+: (throughNewline (cs ++ after)).1 := by
  fun_induction throughNewline cs with
  | case1 => exact List.nil_prefix
  | case2 cs =>
    obtain rfl : cs = [] := h
    exact ⟨[], rfl⟩
  | case3 c cs hc inside rest heq ih =>
    rw [List.cons_append, throughNewline, if_neg hc]
    exact List.cons_prefix_cons.2 ⟨rfl, ih (by rw [heq]; exact h)⟩

theorem throughQuote_covers {quote : Char} {cs : Text} (h : (throughQuote quote cs).2 = [])
    (after : Text) : cs <+: (throughQuote quote (cs ++ after)).1 := by
  induction cs using escapes_induction with
  | nil => exact List.nil_prefix
  | lone =>
    -- The backslash hides what follows, if anything does.
    cases after with
    | nil => exact List.prefix_rfl
    | cons c cs => exact ⟨c :: (throughQuote quote cs).1, rfl⟩
  | escape c cs ih =>
    exact List.cons_prefix_cons.2 ⟨rfl, List.cons_prefix_cons.2 ⟨rfl, ih h⟩⟩
  | other c cs hc ih =>
    rw [throughQuote_cons hc] at h
    rw [List.cons_append, throughQuote_cons hc]
    split at h
    · simp at h
    · split at h
      · next hn hq =>
        obtain rfl : cs = [] := h
        rw [if_neg hn, if_pos hq]
      · next hn hq =>
        rw [if_neg hn, if_neg hq]
        exact List.cons_prefix_cons.2 ⟨rfl, ih h⟩

/-- A slash at the end of a word opens a block comment when a star follows. -/
theorem wordRest_covers {cs : Text} (h : (wordRest cs).2 = []) (after : Text) :
    cs <+: (wordRest (cs ++ after)).1 ∨ ∃ word rest, cs = word ++ ['/'] ∧ after = '*' :: rest ∧
      wordRest (cs ++ after) = (word, '/' :: '*' :: rest) := by
  induction cs using word_induction with
  | nil => exact .inl List.nil_prefix
  | block cs => simp [wordRest] at h
  | stop c cs hc => simp [wordRest_of_endsWord hc] at h
  | other c cs hc hne ih =>
    rw [wordRest_cons hc hne] at h
    by_cases hblock : c = '/' ∧ (cs ++ after).head? = some '*'
    · obtain ⟨rfl, hstar⟩ := hblock
      cases cs with
      | nil =>
        obtain ⟨rest, rfl⟩ := List.head?_eq_some_iff.1 hstar
        exact .inr ⟨[], rest, rfl, rfl, rfl⟩
      | cons d cs => exact absurd hstar (hne rfl)
    · rw [List.cons_append, wordRest_cons hc fun h₁ h₂ => hblock ⟨h₁, h₂⟩]
      rcases ih h with hle | ⟨word, rest, rfl, rfl, hword⟩
      · exact .inl (List.cons_prefix_cons.2 ⟨rfl, hle⟩)
      · exact .inr ⟨c :: word, rest, rfl, rfl, by rw [hword]⟩

/-! ## Pieces of a longer text -/

theorem Text.byteLength_le_of_prefix {a b : Text} (h : a <+: b) : a.byteLength ≤ b.byteLength := by
  obtain ⟨rest, rfl⟩ := h
  rw [Text.byteLength_append]
  exact Nat.le_add_right _ _

namespace Piece

/-- The pieces `qs` begin with some that are no marks and take up `size` bytes at least. -/
def BeginUnmarked (size : Nat) (qs : List Piece) : Prop :=
  ∃ ahead behind, qs = ahead ++ behind ∧ Unmarked ahead ∧ size ≤ Text.byteLength (allChars ahead)

theorem beginUnmarked_cons {p : Piece} (hp : p.mark? = none) {chars : Text} (h : chars <+: p.chars)
    (behind : List Piece) : BeginUnmarked chars.byteLength (p :: behind) := by
  refine ⟨[p], behind, rfl, List.forall_mem_singleton.2 hp, ?_⟩
  rw [allChars_cons, allChars_nil, List.append_nil]
  exact Text.byteLength_le_of_prefix h

/-- The pieces `ps` are those of `qs`, cut short where no mark stands. -/
def CutShort (ps qs : List Piece) : Prop :=
  ∃ same last rest, ps = same ++ last ∧ qs = same ++ rest ∧ Unmarked last ∧
    BeginUnmarked (Text.byteLength (allChars last)) rest

theorem CutShort.cons {ps qs : List Piece} (h : CutShort ps qs) (p : Piece) :
    CutShort (p :: ps) (p :: qs) := by
  obtain ⟨same, last, rest, rfl, rfl, hlast, hrest⟩ := h
  exact ⟨p :: same, last, rest, rfl, rfl, hlast, hrest⟩

theorem cutShort_nil (qs : List Piece) : CutShort [] qs :=
  ⟨[], [], qs, rfl, rfl, by simp [Unmarked], [], qs, rfl, by simp [Unmarked], Nat.le_refl _⟩

end Piece

namespace Text

/-- **Where the last piece of a text is no mark, none stands there in a longer text.**  One case
    for each kind of piece. -/
theorem piecesFrom_beginUnmarked {place : Place} {c : Char} {cs : Text} {p : Piece}
    (h : nextPiece place c cs = (p, [])) (hp : p.mark? = none) (after : Text) :
    Piece.BeginUnmarked (byteLength (c :: cs)) (piecesFrom place (c :: (cs ++ after))) := by
  generalize hrest : ([] : Text) = rest at h
  cases cutsOff_of_nextPiece h with
  | blank hb =>
    subst hrest
    rw [List.nil_append, piecesFrom_cons (nextPiece_blank hb place after)]
    exact Piece.beginUnmarked_cons rfl List.prefix_rfl _
  | mark hm => simp [Piece.mark?] at hp
  | block cs =>
    rw [List.cons_append, piecesFrom_cons (nextPiece_block place (cs ++ after))]
    refine Piece.beginUnmarked_cons rfl ?_ _
    exact List.cons_prefix_cons.2 ⟨rfl, List.cons_prefix_cons.2
      ⟨rfl, throughCommentEnd_covers hrest.symm after⟩⟩
  | line cs ho =>
    rw [List.cons_append, piecesFrom_cons (nextPiece_line ho (cs ++ after))]
    refine Piece.beginUnmarked_cons rfl ?_ _
    exact List.cons_prefix_cons.2 ⟨rfl, List.cons_prefix_cons.2
      ⟨rfl, throughNewline_covers hrest.symm after⟩⟩
  | quoted hs hq =>
    have hslash : c ≠ '/' := by
      rintro rfl
      exact absurd hq (by decide)
    have hs' : StartsText place c (cs ++ after) :=
      ⟨hs.not_blank, hs.not_mark, fun hc => absurd hc hslash, fun hc => absurd hc hslash⟩
    have hnext : nextPiece place c (cs ++ after) =
        (.quoted (c :: (throughQuote c (cs ++ after)).1), (throughQuote c (cs ++ after)).2) := by
      rw [hs'.nextPiece_eq, nextText, if_pos hq]
    rw [piecesFrom_cons hnext]
    refine Piece.beginUnmarked_cons rfl ?_ _
    exact List.cons_prefix_cons.2 ⟨rfl, throughQuote_covers hrest.symm after⟩
  | word hs hq =>
    rcases nextPiece_cases place c (cs ++ after) with
      hb | ⟨m, hm⟩ | ⟨rfl, more, hmore⟩ | ⟨rfl, ho, more, hmore⟩ | hs'
    · simp [hs.not_blank] at hb
    · simp [hs.not_mark] at hm
    · -- The word is a slash, and what follows makes a comment of it.
      have hnil : cs = [] := by
        cases cs with
        | nil => rfl
        | cons d cs => exact absurd (congrArg List.head? hmore) (hs.not_block rfl)
      rw [hmore, hnil, piecesFrom_cons (nextPiece_block place more)]
      exact Piece.beginUnmarked_cons rfl (List.cons_prefix_cons.2 ⟨rfl, List.nil_prefix⟩) _
    · have hnil : cs = [] := by
        cases cs with
        | nil => rfl
        | cons d cs => exact absurd (congrArg List.head? hmore) (hs.not_line rfl ho)
      rw [hmore, hnil, piecesFrom_cons (nextPiece_line ho more)]
      exact Piece.beginUnmarked_cons rfl (List.cons_prefix_cons.2 ⟨rfl, List.nil_prefix⟩) _
    · have hnext : nextPiece place c (cs ++ after) =
          (.word (c :: (wordRest (cs ++ after)).1), (wordRest (cs ++ after)).2) := by
        rw [hs'.nextPiece_eq, nextText, if_neg (by simp [hq])]
      rw [piecesFrom_cons hnext]
      rcases wordRest_covers hrest.symm after with hle | ⟨word, rest, rfl, rfl, hword⟩
      · exact Piece.beginUnmarked_cons rfl (List.cons_prefix_cons.2 ⟨rfl, hle⟩) _
      · -- The comment that takes the slash from the word is the next piece.
        rw [hword, piecesFrom_cons (nextPiece_block _ rest)]
        refine ⟨[_, _], _, rfl, by simp [Piece.Unmarked, Piece.mark?], ?_⟩
        simp [Piece.chars]

/-- **The pieces of a text are those of a longer one,** cut short where no mark stands. -/
theorem piecesFrom_cutShort (place : Place) (text after : Text) :
    Piece.CutShort (piecesFrom place text) (piecesFrom place (text ++ after)) := by
  induction place, text using piecesFrom.induct with
  | case1 place =>
    rw [piecesFrom]
    exact Piece.cutShort_nil _
  | case2 place c cs ih =>
    have hsplit := piecesFrom_cons (Prod.eta (nextPiece place c cs)).symm
    by_cases hrest : (nextPiece place c cs).2 = []
    · have hlast : nextPiece place c cs = ((nextPiece place c cs).1, []) := by rw [← hrest]
      rw [hsplit, hrest, piecesFrom, List.cons_append]
      cases hmark : (nextPiece place c cs).1.mark? with
      | some m =>
        -- A mark stays as it is.
        obtain hm := Piece.mark?_eq_some hmark
        have hends := Piece.endsBefore_of_single (p := .mark m) rfl rfl after
        rw [hm] at hlast ⊢
        rw [piecesFrom_cons (hends _ _ _ hlast)]
        exact (Piece.cutShort_nil _).cons _
      | none =>
        have hchars : (nextPiece place c cs).1.chars = c :: cs := by
          have := nextPiece_append place c cs
          rwa [hrest, List.append_nil] at this
        refine ⟨[], _, _, rfl, rfl, List.forall_mem_singleton.2 hmark, ?_⟩
        rw [Piece.allChars_cons, Piece.allChars_nil, List.append_nil, hchars]
        exact piecesFrom_beginUnmarked hlast hmark after
    · rw [hsplit, List.cons_append, piecesFrom_cons (nextPiece_append_right after hrest)]
      exact ih.cons _

end Text

/-! ## The marks before an offset -/

/-- Marks that stand before the end of a text are its own. -/
theorem filter_tokens_append (front behind : Text) :
    ((tokens (front ++ behind)).filter fun t => t.isMark && t.span.start < front.byteLength) =
      (tokens front).filter Token.isMark := by
  obtain ⟨same, last, rest, hfront, hlong, hlast, ahead, beyond, rfl, hahead, hsize⟩ :=
    Text.piecesFrom_cutShort .origin front behind
  have hlength : front.byteLength =
      Text.byteLength (Piece.allChars same) + Text.byteLength (Piece.allChars last) := by
    rw [← Text.byteLength_append, ← Piece.allChars_append, ← hfront, Text.allChars_piecesFrom]
  have htokens : tokens front = tokensFrom 0 same ++
      tokensFrom (Text.byteLength (Piece.allChars same)) last := by
    rw [tokens, Text.pieces, hfront, tokensFrom_append, Nat.zero_add]
  have hsame : ∀ t ∈ tokensFrom 0 same, t.span.start < front.byteLength := by
    intro t ht
    have hpos := (tokens_span (htokens ▸ List.mem_append_left _ ht : t ∈ tokens front)).1
    have hstop := tokensFrom_stop_le 0 same t ht
    omega
  have hbeyond : ∀ t ∈ tokensFrom (Text.byteLength (Piece.allChars same) +
      Text.byteLength (Piece.allChars ahead)) beyond, ¬ t.span.start < front.byteLength := by
    intro t ht
    obtain ⟨_, _, _, -, -, hspan⟩ := mem_tokensFrom ht
    rw [hspan]
    dsimp only
    omega
  rw [htokens, tokens, Text.pieces, hlong, tokensFrom_append, tokensFrom_append, Nat.zero_add,
    List.filter_append, List.filter_append, List.filter_append]
  congr 1
  · exact List.filter_congr fun t ht => by simp [hsame t ht]
  · rw [List.filter_eq_nil_iff.2 fun t ht => by simp [tokensFrom_unmarked _ hahead t ht],
      List.filter_eq_nil_iff.2 fun t ht => by simp [hbeyond t ht],
      List.filter_eq_nil_iff.2 fun t ht => by simp [tokensFrom_unmarked _ hlast t ht]]
    rfl

/-- What holds of a member only when it holds of all before it, holds of those in front. -/
theorem takeWhile_eq_filter {α : Type} {p : α → Bool} {l : List α}
    (h : l.Pairwise fun a b => p b = true → p a = true) : l.takeWhile p = l.filter p := by
  induction h with
  | nil => rfl
  | @cons a l hle _ ih =>
    by_cases ha : p a = true
    · rw [List.takeWhile_cons_of_pos ha, List.filter_cons_of_pos ha, ih]
    · rw [List.takeWhile_cons_of_neg ha, List.filter_cons_of_neg ha, eq_comm,
        List.filter_eq_nil_iff]
      exact fun b hb hpb => ha (hle b hb hpb)

namespace Cursor

theorem foldl_step_filter (ts : List Token) (c : Cursor) :
    (ts.filter Token.isMark).foldl step c = ts.foldl step c := by
  induction ts generalizing c with
  | nil => rfl
  | cons t ts ih =>
    cases hm : t.isMark with
    | true => rw [List.filter_cons_of_pos hm, List.foldl_cons, List.foldl_cons, ih]
    | false =>
      have hstep : c.step t = c := by simp [step_eq, hm, depthAfter_text hm]
      rw [List.filter_cons_of_neg (by simp [hm]), List.foldl_cons, hstep, ih]

/-- The marks before an offset lead to its place. -/
theorem before_eq_foldl (text : Text) (offset : Nat) :
    before text offset =
      ((tokens text).filter fun t => t.isMark && t.span.start < offset).foldl step ⟨0, 0⟩ := by
  have hordered : (tokens text).Pairwise fun t u =>
      decide (u.span.start < offset) = true → decide (t.span.start < offset) = true := by
    refine (tokensFrom_pairwise 0 text.pieces).imp_of_mem fun {t u} ht _ hle hlt => ?_
    have hpos := (tokens_span ht).1
    simp only [decide_eq_true_eq] at hlt ⊢
    omega
  rw [before, takeWhile_eq_filter hordered, ← foldl_step_filter, List.filter_filter]

/-- **The place at an offset does not depend on what stands behind it.** -/
theorem before_append (front behind : Text) :
    before (front ++ behind) front.byteLength = before front front.byteLength := by
  have hfront := filter_tokens_append front []
  rw [List.append_nil] at hfront
  rw [before_eq_foldl, before_eq_foldl, filter_tokens_append, hfront]

theorem foldl_step_segment {P : Nat → Prop} {ts : List Token} (h : ∀ t ∈ ts, P t.span.stop)
    {c : Cursor} (hc : P c.segment) : P (ts.foldl step c).segment := by
  induction ts generalizing c with
  | nil => exact hc
  | cons t ts ih =>
    obtain ⟨ht, hts⟩ := List.forall_mem_cons.1 h
    refine ih hts ?_
    rw [step_eq]
    dsimp only
    split
    · exact ht
    · exact hc

/-- The last mark ends between two characters. -/
theorem segment_boundary (text : Text) (offset : Nat) :
    text.isBoundary (before text offset).segment = true := by
  have hstart : text.isBoundary (⟨0, 0⟩ : Cursor).segment = true :=
    Text.isBoundary_byteLength [] text
  exact foldl_step_segment (P := (text.isBoundary · = true))
    (fun t ht => (tokens_span ((List.takeWhile_sublist _).subset ht)).2.2) hstart

end Cursor

/-! ## What is typed -/

/-- **What is typed at the end of a text** is typed there, too, when the text goes on. -/
theorem completionContext_append (front behind : Text) :
    ∃ context, completionContext (front ++ behind) front.byteLength = .ok context ∧
      completionContext front front.byteLength = .ok context := by
  obtain ⟨done, written, hfront, hdone⟩ :=
    Text.isBoundary_iff.1 (Cursor.segment_boundary front front.byteLength)
  have hspan : (⟨(Cursor.before front front.byteLength).segment, front.byteLength⟩ : Span) =
      Fragment.span ⟨(Cursor.before front front.byteLength).segment, written⟩ := by
    rw [Fragment.span, Fragment.stop]
    dsimp only
    rw [← hdone, ← Text.byteLength_append, ← hfront]
  have hin : Fragment.In ⟨(Cursor.before front front.byteLength).segment, written⟩ front :=
    ⟨done, [], by rw [List.append_nil]; exact hfront, hdone⟩
  have hin' : Fragment.In ⟨(Cursor.before front front.byteLength).segment, written⟩
      (front ++ behind) := ⟨done, behind, congrArg (· ++ behind) hfront, hdone⟩
  have hmin : min front.byteLength (front ++ behind).byteLength = front.byteLength := by
    rw [Text.byteLength_append]
    omega
  simp only [completionContext, hmin, Nat.min_self, Cursor.before_append, hspan, hin.slice?_span,
    hin'.slice?_span]
  split
  · exact ⟨_, rfl, rfl⟩
  · exact ⟨_, rfl, rfl⟩

namespace Text

/-- The bytes of a text tell where its characters end. -/
theorem prefix_of_bytes {a b : Text} (h : a.bytes <+: b.bytes) : a <+: b := by
  induction a generalizing b with
  | nil => exact List.nil_prefix
  | cons c a ih =>
    obtain ⟨rest, hrest⟩ := h
    rw [bytes_cons, List.append_assoc] at hrest
    cases b with
    | nil =>
      have hlength := congrArg List.length hrest
      have hpos := c.utf8Size_pos
      simp [bytes, String.length_utf8EncodeChar] at hlength
      omega
    | cons d b =>
      rw [bytes_cons] at hrest
      have hdecode := congrArg (fun bytes => bytes.toByteArray.utf8DecodeChar? 0) hrest
      simp only [List.toByteArray_append, ByteArray.utf8DecodeChar?_utf8EncodeChar_append,
        Option.some.injEq] at hdecode
      obtain rfl := hdecode
      exact List.cons_prefix_cons.2 ⟨rfl, ih ⟨rest, List.append_cancel_left hrest⟩⟩

end Text

/-- What stands behind an offset of a text does not count: `front` is the text up to there. -/
structure Text.DecidedBy (text : Text) (o : Nat) (front : Text) : Prop where
  front_eq : text.slice? ⟨0, o⟩ = some front
  /-- The marks before the offset are those of the text up to there. -/
  marks_eq : ((tokens text).filter fun t => t.isMark && t.span.start < o) =
    (tokens front).filter Token.isMark
  /-- The same is typed in both texts. -/
  context_eq : ∃ context, completionContext text o = .ok context ∧
    completionContext front o = .ok context
  /-- Texts with the same bytes before the offset are alike. -/
  alike : ∀ other : Text, other.bytes.take o = text.bytes.take o →
    completionContext other o = completionContext text o

/-- **What follows the cursor never matters.** -/
theorem completionContext_decided {text : Text} {o : Nat} (ho : text.isBoundary o = true) :
    ∃ front, text.DecidedBy o front := by
  obtain ⟨front, behind, rfl, rfl⟩ := Text.isBoundary_iff.1 ho
  obtain ⟨context, hlong, hfront⟩ := completionContext_append front behind
  refine ⟨front, ?_, filter_tokens_append front behind, ⟨context, hlong, hfront⟩, ?_⟩
  · have hin : Fragment.In ⟨0, front⟩ (front ++ behind) := ⟨[], behind, rfl, rfl⟩
    simpa [Fragment.span, Fragment.stop] using hin.slice?_span
  · intro other hbytes
    have htake : (front ++ behind).bytes.take front.byteLength = front.bytes := by
      rw [Text.bytes_append, ← Text.length_bytes, List.take_left]
    rw [htake] at hbytes
    obtain ⟨rest, rfl⟩ := Text.prefix_of_bytes (hbytes ▸ List.take_prefix _ _)
    obtain ⟨context', hother, hfront'⟩ := completionContext_append front rest
    obtain rfl := Except.ok.inj (hfront.symm.trans hfront')
    rw [hother, hlong]

/-- A declaration with a comment behind its name. -/
def slashed : Text := "a\x7bb/*\x7d;*/: c".toList

/-- Between the two characters that open the comment, the first of them is still typed. -/
theorem slashed_decided :
    slashed.isBoundary 4 = true ∧ (∃ front, slashed.DecidedBy 4 front) ∧
      completionContext slashed 4 = .ok (.name "b/") ∧
      completionContext slashed 11 = .ok (.value "b/*\x7d;*/") :=
  ⟨by decide, completionContext_decided (by decide), by decide +kernel, by decide +kernel⟩

end StyleServer
