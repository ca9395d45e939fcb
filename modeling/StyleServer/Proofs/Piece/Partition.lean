/-
  Tokens and the gaps between them.

  A text is its tokens and the gaps before, between and behind them.  A gap is made of blanks
  and comments; whether a double slash opens a comment in it depends on the token before the
  gap and on the line feeds passed since.

  * `Gap`, `IsToken`, `Laid`: a text laid out as gaps and tokens, by their shapes alone.
  * `Gap.piecesFrom_eq`, `gap_of_piecesFrom`: gaps are cut into the pieces that make them up.
  * `laid_iff`: a text is laid out in one way, and its tokens are the ones read.
  * `Tokenized`, `tokens_partition`: order, boundaries and texts of the tokens, and that no
    mark outside of strings and comments is lost.
-/
import StyleServer.Proofs.Piece.Shape
import StyleServer.Proofs.Sheet.ValueStart

namespace StyleServer

/-! ## Gaps and tokens -/

/-- A line ends with the piece: a line feed outside of block comments. -/
def Piece.endsLine : Piece → Bool
  | .blank c => c == '\n'
  | .lineComment _ => true
  | _ => false

/-- Blanks and comments in front of `rest`.  A double slash opens a comment where the gap
    begins if `opens` holds, and behind each line feed of the gap. -/
structure Gap (opens : Prop) (gap : List Piece) (rest : Text) : Prop where
  trivia : ∀ p ∈ gap, p.tokenKind? = none
  shaped : ∀ u p v, gap = u ++ p :: v → p.Shaped (Piece.allChars v ++ rest)
  lines : ∀ u p v, gap = u ++ p :: v → p.isLineComment = true →
    opens ∨ ∃ q ∈ u, q.endsLine = true

/-- The characters of a token in front of `rest`. -/
inductive IsToken : TokenKind → Text → Text → Prop where
  | mark (m : Mark) (rest : Text) : IsToken (.mark m) [m.char] rest
  | string {chars rest : Text} (h : IsString chars rest) : IsToken .text chars rest
  | word {chars rest : Text} (h : IsWord chars rest) : IsToken .text chars rest

/-- A text from an offset on, laid out as gaps and tokens; `last` is the kind of the token
    before it.  A double slash opens a comment when no token precedes, when a mark precedes, and
    when a line feed lies between the preceding token and it; no token begins with a double
    slash there. -/
inductive Laid : Option TokenKind → Nat → Text → List Token → Prop where
  | gap {last : Option TokenKind} {offset : Nat} {gap : List Piece}
      (hgap : Gap (last ≠ some .text) gap []) : Laid last offset (Piece.allChars gap) []
  | token {last : Option TokenKind} {offset : Nat} {gap : List Piece} {kind : TokenKind}
      {chars rest : Text} {ts : List Token}
      (hgap : Gap (last ≠ some .text) gap (chars ++ rest)) (htoken : IsToken kind chars rest)
      (hslash : (last ≠ some .text ∨ ∃ p ∈ gap, p.endsLine = true) →
        ¬ ['/', '/'] <+: chars ++ rest)
      {start stop : Nat} (hstart : start = offset + Text.byteLength (Piece.allChars gap))
      (hstop : stop = start + Text.byteLength chars)
      (hrest : Laid (some kind) stop rest ts) :
      Laid last offset (Piece.allChars gap ++ (chars ++ rest)) (⟨kind, ⟨start, stop⟩⟩ :: ts)

/-! ## Gaps are cut into their pieces -/

theorem Gap.nil (opens : Prop) (rest : Text) : Gap opens [] rest :=
  ⟨by simp, by simp, by simp⟩

/-- The first piece of a gap, and the gap behind it. -/
theorem gap_cons {opens : Prop} {p : Piece} {gap : List Piece} {rest : Text} :
    Gap opens (p :: gap) rest ↔ p.tokenKind? = none ∧ p.Shaped (Piece.allChars gap ++ rest) ∧
      (p.isLineComment = true → opens) ∧ Gap (opens ∨ p.endsLine = true) gap rest := by
  constructor
  · intro h
    refine ⟨h.trivia p List.mem_cons_self, h.shaped [] p gap rfl, fun hl => ?_, ?_, ?_, ?_⟩
    · simpa using h.lines [] p gap rfl hl
    · exact fun q hq => h.trivia q (List.mem_cons_of_mem _ hq)
    · exact fun u q v hgap => h.shaped (p :: u) q v (by rw [hgap]; rfl)
    · intro u q v hgap hl
      rcases h.lines (p :: u) q v (by rw [hgap]; rfl) hl with ho | ⟨r, hr, he⟩
      · exact Or.inl (Or.inl ho)
      · rcases List.mem_cons.1 hr with rfl | hr
        · exact Or.inl (Or.inr he)
        · exact Or.inr ⟨r, hr, he⟩
  · rintro ⟨htrivia, hshaped, hline, h⟩
    refine ⟨List.forall_mem_cons.2 ⟨htrivia, h.trivia⟩, ?_, ?_⟩
    · intro u q v hgap
      cases u with
      | nil => obtain ⟨rfl, rfl⟩ := List.cons.inj hgap; exact hshaped
      | cons r u => exact h.shaped u q v (List.cons.inj hgap).2
    · intro u q v hgap hl
      cases u with
      | nil => obtain ⟨rfl, rfl⟩ := List.cons.inj hgap; exact Or.inl (hline hl)
      | cons r u =>
        obtain ⟨rfl, htail⟩ := List.cons.inj hgap
        rcases h.lines u q v htail hl with (ho | he) | ⟨s, hs, he⟩
        · exact Or.inl ho
        · exact Or.inr ⟨p, List.mem_cons_self, he⟩
        · exact Or.inr ⟨s, List.mem_cons_of_mem _ hs, he⟩

/-- Behind blanks and comments, a double slash opens a comment if it did before them, or if a
    line has ended since. -/
theorem Place.opens_after {p : Piece} (h : p.tokenKind? = none) (place : Place) :
    (place.after p).opensLineComment = true ↔
      place.opensLineComment = true ∨ p.endsLine = true := by
  cases p with
  | blank c =>
    by_cases hc : c = '\n'
    · simp [after, hc, opensLineComment, Piece.endsLine]
    · simp [after, hc, Piece.endsLine]
  | blockComment => simp [after, Piece.endsLine]
  | lineComment => simp [after, opensLineComment, Piece.endsLine]
  | mark | quoted | word => simp [Piece.tokenKind?] at h

theorem Place.opens_afterAll {gap : List Piece} (h : ∀ p ∈ gap, p.tokenKind? = none)
    (place : Place) :
    (place.afterAll gap).opensLineComment = true ↔
      place.opensLineComment = true ∨ ∃ p ∈ gap, p.endsLine = true := by
  induction gap generalizing place with
  | nil => simp [afterAll]
  | cons p gap ih =>
    obtain ⟨hp, hgap⟩ := List.forall_mem_cons.1 h
    have hstep : place.afterAll (p :: gap) = (place.after p).afterAll gap := rfl
    rw [hstep, ih hgap, opens_after hp, List.exists_mem_cons_iff, or_assoc]

theorem Piece.isText_eq_false {p : Piece} (h : p.tokenKind? = none) : p.isText = false := by
  cases p with
  | blank | blockComment | lineComment => rfl
  | mark | quoted | word => simp [tokenKind?] at h

theorem Piece.Shaped.chars_ne_nil {rest : Text} {p : Piece} (h : p.Shaped rest) :
    p.chars ≠ [] := by
  cases p with
  | blank | mark => simp [Piece.chars]
  | blockComment | lineComment | quoted => cases h <;> simp [Piece.chars]
  | word => exact h.ne_nil

/-- **A gap is cut into its pieces.** -/
theorem Gap.piecesFrom_eq {opens : Prop} {gap : List Piece} {rest : Text} (h : Gap opens gap rest)
    {place : Place} (hplace : place.opensLineComment = true ↔ opens) :
    Text.piecesFrom place (Piece.allChars gap ++ rest) =
      gap ++ Text.piecesFrom (place.afterAll gap) rest := by
  induction gap generalizing opens place with
  | nil => rfl
  | cons p gap ih =>
    obtain ⟨htrivia, hshaped, hline, hgap⟩ := gap_cons.1 h
    obtain ⟨c, cs, hchars⟩ := List.exists_cons_of_ne_nil hshaped.chars_ne_nil
    have hnext : nextPiece place c (cs ++ (Piece.allChars gap ++ rest)) =
        (p, Piece.allChars gap ++ rest) := by
      refine nextPiece_eq_iff.2 ⟨by rw [hchars]; rfl, hshaped, fun hl => hplace.2 (hline hl), ?_⟩
      intro ht
      rw [Piece.isText_eq_false htrivia] at ht
      exact absurd ht (by decide)
    have hstep : place.afterAll (p :: gap) = (place.after p).afterAll gap := rfl
    rw [Piece.allChars_cons, hchars, List.append_assoc, List.cons_append,
      Text.piecesFrom_cons hnext, ih hgap (by rw [Place.opens_after htrivia, hplace]), hstep]
    rfl

/-- Blanks and comments that are cut off make a gap. -/
theorem gap_of_piecesFrom {place : Place} {text : Text} {gap ps : List Piece}
    (h : Text.piecesFrom place text = gap ++ ps) (htrivia : ∀ p ∈ gap, p.tokenKind? = none) :
    Gap (place.opensLineComment = true) gap (Piece.allChars ps) := by
  induction gap generalizing place text with
  | nil => exact .nil _ _
  | cons p gap ih =>
    obtain ⟨hp, hgap⟩ := List.forall_mem_cons.1 htrivia
    cases text with
    | nil => simp [Text.piecesFrom] at h
    | cons c cs =>
      rw [Text.piecesFrom_cons (Prod.eta (nextPiece place c cs)).symm, List.cons_append] at h
      obtain ⟨hhead, htail⟩ := List.cons.inj h
      have hrest : (nextPiece place c cs).2 = Piece.allChars gap ++ Piece.allChars ps := by
        rw [← Piece.allChars_append, ← htail, Text.allChars_piecesFrom]
      rw [hhead] at htail
      obtain ⟨-, hshaped, hline, -⟩ := nextPiece_eq_iff.1 (Prod.ext hhead hrest)
      refine gap_cons.2 ⟨hp, hshaped, hline, ?_⟩
      have := ih htail hgap
      rwa [propext (Place.opens_after hp place)] at this

/-! ## One layout -/

theorem isToken_iff {kind : TokenKind} {chars rest : Text} :
    IsToken kind chars rest ↔
      ∃ p : Piece, p.tokenKind? = some kind ∧ p.chars = chars ∧ p.Shaped rest := by
  constructor
  · intro h
    cases h with
    | mark m => exact ⟨.mark m, rfl, rfl, trivial⟩
    | string h => exact ⟨.quoted chars, rfl, rfl, h⟩
    | word h => exact ⟨.word chars, rfl, rfl, h⟩
  · rintro ⟨p, hkind, rfl, hshaped⟩
    cases p with
    | mark m => obtain rfl := Option.some.inj hkind; exact .mark m rest
    | quoted chars => obtain rfl := Option.some.inj hkind; exact .string hshaped
    | word chars => obtain rfl := Option.some.inj hkind; exact .word hshaped
    | blank | blockComment | lineComment => simp [Piece.tokenKind?] at hkind

/-- Behind a token, a double slash opens a comment if the token is a mark. -/
theorem Place.opens_after_token {p : Piece} {kind : TokenKind} (h : p.tokenKind? = some kind)
    (place : Place) : (place.after p).opensLineComment = true ↔ some kind ≠ some .text := by
  cases p with
  | mark => obtain rfl := Option.some.inj h; simp [after, opensLineComment]
  | quoted | word => obtain rfl := Option.some.inj h; simp [after, opensLineComment]
  | blank | blockComment | lineComment => simp [Piece.tokenKind?] at h

theorem tokensFrom_trivia (offset : Nat) {gap : List Piece}
    (h : ∀ p ∈ gap, p.tokenKind? = none) : tokensFrom offset gap = [] := by
  induction gap generalizing offset with
  | nil => rfl
  | cons p gap ih =>
    obtain ⟨hp, hgap⟩ := List.forall_mem_cons.1 h
    rw [tokensFrom, hp]
    exact ih _ hgap

theorem tokensFrom_token (offset : Nat) {gap : List Piece} (h : ∀ p ∈ gap, p.tokenKind? = none)
    {p : Piece} {kind : TokenKind} (hp : p.tokenKind? = some kind) (ps : List Piece) :
    tokensFrom offset (gap ++ p :: ps) =
      ⟨kind, ⟨offset + Text.byteLength (Piece.allChars gap),
        offset + Text.byteLength (Piece.allChars gap) + p.size⟩⟩ ::
        tokensFrom (offset + Text.byteLength (Piece.allChars gap) + p.size) ps := by
  rw [tokensFrom_append, tokensFrom_trivia offset h, List.nil_append, tokensFrom, hp]

/-- Only a string or a word can begin with slashes. -/
theorem Piece.isText_of_slash {p : Piece} {kind : TokenKind} (h : p.tokenKind? = some kind)
    {rest : Text} (hslash : ['/', '/'] <+: p.chars ++ rest) : p.isText = true := by
  cases p with
  | quoted | word => rfl
  | mark m =>
    have hc : '/' = m.char := (List.cons_prefix_cons.1 hslash).1
    cases m <;> exact absurd hc (by decide)
  | blank | blockComment | lineComment => simp [tokenKind?] at h

/-- A layout gives the tokens that are read. -/
theorem Laid.eq_tokensFrom {last : Option TokenKind} {offset : Nat} {text : Text} {ts : List Token}
    (h : Laid last offset text ts) {place : Place}
    (hplace : place.opensLineComment = true ↔ last ≠ some .text) :
    ts = tokensFrom offset (Text.piecesFrom place text) := by
  induction h generalizing place with
  | @gap last offset gap hgap =>
    have hpieces := hgap.piecesFrom_eq hplace
    rw [List.append_nil] at hpieces
    rw [hpieces, Text.piecesFrom, List.append_nil, tokensFrom_trivia offset hgap.trivia]
  | @token last offset gap kind chars rest ts hgap htoken hslash start stop hstart hstop hrest ih =>
    obtain ⟨p, hkind, rfl, hshaped⟩ := isToken_iff.1 htoken
    obtain ⟨c, cs, hchars⟩ := List.exists_cons_of_ne_nil hshaped.chars_ne_nil
    have hnext : nextPiece (place.afterAll gap) c (cs ++ rest) = (p, rest) := by
      refine nextPiece_eq_iff.2 ⟨by rw [hchars]; rfl, hshaped, ?_, ?_⟩
      · intro hl
        cases p <;> simp [Piece.isLineComment, Piece.tokenKind?] at hl hkind
      · intro _ hslashes
        refine Bool.eq_false_iff.2 fun ho => ?_
        rw [Place.opens_afterAll hgap.trivia, hplace] at ho
        exact hslash ho (by rw [hchars]; exact hslashes)
    have hcut : Text.piecesFrom place (Piece.allChars gap ++ (p.chars ++ rest)) =
        gap ++ p :: Text.piecesFrom ((place.afterAll gap).after p) rest := by
      rw [hgap.piecesFrom_eq hplace, hchars, List.cons_append, Text.piecesFrom_cons hnext]
    rw [ih (Place.opens_after_token hkind (place.afterAll gap)), hcut,
      tokensFrom_token offset hgap.trivia hkind, hstop, hstart]
    rfl

/-- Induction along the tokens. -/
@[elab_as_elim]
theorem Piece.tokens_induction {motive : List Piece → Prop} (ps : List Piece)
    (gap : ∀ ps, (∀ p ∈ ps, p.tokenKind? = none) → motive ps)
    (token : ∀ gap p kind ps, (∀ q ∈ gap, q.tokenKind? = none) → p.tokenKind? = some kind →
      motive ps → motive (gap ++ p :: ps)) : motive ps := by
  -- The pieces read since the last token stand before those to come.
  suffices h : ∀ read, (∀ p ∈ read, p.tokenKind? = none) → motive (read ++ ps) from h [] (by simp)
  induction ps with
  | nil => intro read hread; rw [List.append_nil]; exact gap read hread
  | cons p ps ih =>
    intro read hread
    cases hp : p.tokenKind? with
    | some kind => exact token read p kind ps hread hp (ih [] (by simp))
    | none =>
      have h := ih (read ++ [p]) fun q hq => by
        rcases List.mem_append.1 hq with hq | hq
        · exact hread q hq
        · rw [List.mem_singleton.1 hq]; exact hp
      simpa using h

theorem CutsOff.chars_append {place : Place} {c : Char} {cs rest : Text} {p : Piece}
    (h : CutsOff place c cs p rest) : p.chars ++ rest = c :: cs := by
  cases h with
  | blank => rfl
  | mark hm => rw [← markOf?_eq_some hm]; rfl
  | block cs | line cs => simp [Piece.chars]
  | quoted | word => simp [Piece.chars]

/-- A piece among those of a text has its shape, and a double slash is read as the pieces
    before it say. -/
theorem Text.shaped_of_split {place : Place} {text : Text} {front behind : List Piece} {p : Piece}
    (h : piecesFrom place text = front ++ p :: behind) :
    p.Shaped (Piece.allChars behind) ∧
      (p.isText = true → ['/', '/'] <+: p.chars ++ Piece.allChars behind →
        (place.afterAll front).opensLineComment = false) := by
  obtain ⟨c, cs, hcut⟩ := cutsOff_of_split h
  obtain ⟨hshaped, -, hslash⟩ := hcut.shaped
  rw [hcut.chars_append]
  exact ⟨hshaped, hslash⟩

/-- The tokens that are read lay out the text. -/
theorem laid_tokensFrom {place : Place} {text : Text} {ps : List Piece}
    (h : Text.piecesFrom place text = ps) {last : Option TokenKind}
    (hplace : place.opensLineComment = true ↔ last ≠ some .text) (offset : Nat) :
    Laid last offset text (tokensFrom offset ps) := by
  have hall := Text.allChars_piecesFrom place text
  rw [h] at hall
  induction ps using Piece.tokens_induction generalizing place text last offset with
  | gap gap htrivia =>
    rw [← List.append_nil gap] at h
    have hgap := gap_of_piecesFrom h htrivia
    rw [propext hplace] at hgap
    rw [← hall, tokensFrom_trivia offset htrivia]
    exact .gap hgap
  | token gap p kind ps htrivia hkind ih =>
    have hgap := gap_of_piecesFrom h htrivia
    rw [propext hplace, Piece.allChars_cons] at hgap
    obtain ⟨hshaped, hslash⟩ := Text.shaped_of_split h
    rw [← List.singleton_append, ← List.append_assoc] at h
    have hrest := Text.piecesFrom_split h
    have hopens : (place.afterAll (gap ++ [p])).opensLineComment = true ↔
        some kind ≠ some .text := by
      rw [Place.afterAll, List.foldl_append]
      exact Place.opens_after_token hkind _
    rw [← hall, tokensFrom_token offset htrivia hkind, Piece.allChars_append, Piece.allChars_cons]
    refine .token hgap (isToken_iff.2 ⟨p, hkind, rfl, hshaped⟩) ?_ rfl rfl
      (ih hrest hopens _ rfl)
    intro ho hslashes
    rw [← hplace, ← Place.opens_afterAll htrivia] at ho
    rw [hslash (Piece.isText_of_slash hkind hslashes) hslashes] at ho
    exact absurd ho (by decide)

/-- **A text is laid out in one way:** by the tokens that are read. -/
theorem laid_iff {text : Text} {ts : List Token} : Laid none 0 text ts ↔ ts = tokens text := by
  have hplace : Place.origin.opensLineComment = true ↔ (none : Option TokenKind) ≠ some .text := by
    decide
  constructor
  · intro h
    exact h.eq_tokensFrom hplace
  · rintro rfl
    exact laid_tokensFrom rfl hplace 0

/-! ## Where tokens stand -/

/-- A token is the span of a piece. -/
theorem mem_tokensFrom {offset : Nat} {ps : List Piece} {t : Token} (h : t ∈ tokensFrom offset ps) :
    ∃ u p v, ps = u ++ p :: v ∧ p.tokenKind? = some t.kind ∧
      t.span = ⟨offset + Text.byteLength (Piece.allChars u),
        offset + Text.byteLength (Piece.allChars u) + p.size⟩ := by
  induction ps generalizing offset with
  | nil => simp [tokensFrom] at h
  | cons p ps ih =>
    have htail : t ∈ tokensFrom (offset + p.size) ps → ∃ u q v, p :: ps = u ++ q :: v ∧
        q.tokenKind? = some t.kind ∧
        t.span = ⟨offset + Text.byteLength (Piece.allChars u),
          offset + Text.byteLength (Piece.allChars u) + q.size⟩ := by
      intro ht
      obtain ⟨u, q, v, rfl, hkind, hspan⟩ := ih ht
      refine ⟨p :: u, q, v, rfl, hkind, ?_⟩
      rw [hspan, Piece.allChars_cons, Text.byteLength_append, Piece.size, Nat.add_assoc]
    rw [tokensFrom] at h
    cases hp : p.tokenKind? with
    | none => rw [hp] at h; exact htail h
    | some kind =>
      rw [hp] at h
      rcases List.mem_cons.1 h with rfl | h
      · exact ⟨[], p, ps, rfl, hp, rfl⟩
      · exact htail h

theorem tokensFrom_pairwise (offset : Nat) (ps : List Piece) :
    (tokensFrom offset ps).Pairwise fun t u => t.span.stop ≤ u.span.start := by
  induction ps generalizing offset with
  | nil => exact .nil
  | cons p ps ih =>
    rw [tokensFrom]
    cases p.tokenKind? with
    | none => exact ih _
    | some kind =>
      refine List.pairwise_cons.2 ⟨fun u hu => ?_, ih _⟩
      obtain ⟨_, _, _, -, -, hspan⟩ := mem_tokensFrom hu
      rw [hspan]
      exact Nat.le_add_right _ _

/-- What stands before a word: nothing, a character that ends words, or a block comment. -/
def WordBegins (before rest : Text) : Prop :=
  (∀ c ∈ before.getLast?, endsWord c = true) ∨
    ∃ front comment, before = front ++ comment ∧ IsBlockComment comment rest

theorem endsWord_of_blank {c : Char} (h : isAsciiBlank c = true) : endsWord c = true := by
  refine Classical.byContradiction fun hends => ?_
  rw [(endsWord_eq_false (Bool.eq_false_iff.2 hends)).1] at h
  exact absurd h (by decide)

/-- A word does not go on to the left, either. -/
theorem Text.word_begins {text : Text} {u v : List Piece} {chars : Text}
    (h : text.pieces = u ++ .word chars :: v) :
    WordBegins (Piece.allChars u) (chars ++ Piece.allChars v) := by
  obtain ⟨hword, -⟩ := shaped_of_split h
  obtain ⟨c, run, rfl⟩ := List.exists_cons_of_ne_nil hword.ne_nil
  obtain ⟨hc, hblock, -⟩ := isWord_iff.1 hword
  rcases List.eq_nil_or_concat u with rfl | ⟨init, p, rfl⟩
  · exact Or.inl (by simp)
  rw [List.concat_eq_append] at h ⊢
  rw [List.append_assoc, List.singleton_append] at h
  obtain ⟨hshaped, -⟩ := shaped_of_split h
  rw [Piece.allChars_cons] at hshaped
  have hlast : ∀ {d : Char}, p.chars.getLast? = some d → endsWord d = true →
      WordBegins (Piece.allChars (init ++ [p])) (c :: run ++ Piece.allChars v) := by
    intro d hd hends
    refine Or.inl fun e he => ?_
    rw [Piece.allChars_append, List.getLast?_append, Piece.allChars_cons, Piece.allChars_nil,
      List.append_nil, hd] at he
    obtain rfl := Option.some.inj he
    exact hends
  -- What begins with `c` ends neither a string nor a word before it.
  cases p with
  | blank d => exact hlast rfl (endsWord_of_blank hshaped)
  | mark m => exact hlast rfl (by cases m <;> decide)
  | blockComment comment =>
    exact Or.inr ⟨Piece.allChars init, comment, by simp [Piece.chars], hshaped⟩
  | lineComment comment =>
    cases hshaped with
    | @ended inside _ _ =>
      exact hlast (List.getLast?_concat (l := '/' :: '/' :: inside)) (by decide)
  | quoted chars =>
    cases hshaped with
    | @closed quote inside _ hq _ =>
      refine hlast (List.getLast?_concat (l := quote :: inside)) ?_
      rcases isQuote_iff.1 hq with rfl | rfl <;> decide
    | upToFeed => exact absurd hc (by decide)
  | word chars =>
    rcases hshaped.maximal with hend | ⟨more, hmore⟩
    · rw [hend c rfl] at hc
      exact absurd hc (by decide)
    · obtain ⟨rfl, htail⟩ := List.cons.inj hmore
      exact absurd (congrArg List.head? htail.symm) (hblock rfl)

/-! ## The partition -/

/-- A piece of a text with what stands before and behind it. -/
theorem Text.text_of_split {text : Text} {u v : List Piece} {p : Piece}
    (h : text.pieces = u ++ p :: v) :
    text = Piece.allChars u ++ (p.chars ++ Piece.allChars v) := by
  rw [← Piece.allChars_cons, ← Piece.allChars_append, ← h]
  exact (Text.allChars_piecesFrom _ text).symm

/-- A token of a text is a piece of it. -/
theorem piece_of_mem_tokens {text : Text} {t : Token} (h : t ∈ tokens text) :
    ∃ u p v, text.pieces = u ++ p :: v ∧ p.tokenKind? = some t.kind ∧
      t.span = ⟨Text.byteLength (Piece.allChars u),
        Text.byteLength (Piece.allChars u) + p.size⟩ := by
  obtain ⟨u, p, v, hsplit, hkind, hspan⟩ := mem_tokensFrom h
  rw [Nat.zero_add] at hspan
  exact ⟨u, p, v, hsplit, hkind, hspan⟩

/-- The tokens before a piece, the token it is, and those behind it. -/
theorem tokens_of_split {text : Text} {u v : List Piece} {p : Piece}
    (h : text.pieces = u ++ p :: v) :
    tokens text = tokensFrom 0 u ++
      tokensFrom (Text.byteLength (Piece.allChars u)) (p :: v) := by
  rw [tokens, h, tokensFrom_append, Nat.zero_add]

theorem mem_tokens_of_split {text : Text} {u v : List Piece} {p : Piece} {kind : TokenKind}
    (h : text.pieces = u ++ p :: v) (hkind : p.tokenKind? = some kind) :
    ⟨kind, ⟨Text.byteLength (Piece.allChars u),
      Text.byteLength (Piece.allChars u) + p.size⟩⟩ ∈ tokens text := by
  rw [tokens_of_split h, tokensFrom, hkind]
  exact List.mem_append_right _ List.mem_cons_self

/-- No token overlaps a comment. -/
theorem tokens_beside {text : Text} {u v : List Piece} {p : Piece}
    (h : text.pieces = u ++ p :: v) (hkind : p.tokenKind? = none) {t : Token}
    (ht : t ∈ tokens text) :
    t.span.stop ≤ Text.byteLength (Piece.allChars u) ∨
      Text.byteLength (Piece.allChars u) + p.size ≤ t.span.start := by
  rw [tokens_of_split h, tokensFrom, hkind] at ht
  rcases List.mem_append.1 ht with ht | ht
  · obtain ⟨a, q, b, rfl, -, hspan⟩ := mem_tokensFrom ht
    refine Or.inl ?_
    rw [hspan, Piece.allChars_append, Piece.allChars_cons, Text.byteLength_append,
      Text.byteLength_append]
    show _ + Text.byteLength q.chars ≤ _
    omega
  · obtain ⟨a, q, b, rfl, -, hspan⟩ := mem_tokensFrom ht
    refine Or.inr ?_
    rw [hspan]
    exact Nat.le_add_right _ _

/-- Each character of a text stands in one of its pieces. -/
theorem Piece.exists_of_allChars {ps : List Piece} {a b : Text} {c : Char}
    (h : allChars ps = a ++ c :: b) :
    ∃ u p v x y, ps = u ++ p :: v ∧ p.chars = x ++ c :: y ∧ a = allChars u ++ x := by
  induction ps generalizing a with
  | nil => simp [allChars] at h
  | cons p ps ih =>
    rw [allChars_cons] at h
    rcases List.append_eq_append_iff.1 h with ⟨x, rfl, hrest⟩ | ⟨x, hp, hrest⟩
    · obtain ⟨u, q, v, x', y, rfl, hq, rfl⟩ := ih hrest
      exact ⟨p :: u, q, v, x', y, rfl, hq, by rw [allChars_cons, List.append_assoc]⟩
    · cases x with
      | nil =>
        obtain ⟨u, q, v, x', y, rfl, hq, hnil⟩ := ih (a := []) (by simpa using hrest.symm)
        refine ⟨p :: u, q, v, x', y, rfl, hq, ?_⟩
        rw [allChars_cons, List.append_assoc, ← hnil, hp, List.append_nil, List.append_nil]
      | cons d x =>
        obtain ⟨rfl, -⟩ := List.cons.inj hrest
        exact ⟨[], p, ps, a, x, rfl, hp, rfl⟩

/-- What the tokens of a text are. -/
structure Tokenized (text : Text) (ts : List Token) : Prop where
  /-- The text is made of the tokens and of gaps of blanks and comments, -/
  laid : Laid none 0 text ts
  /-- and in no other way. -/
  unique : ∀ us, Laid none 0 text us → us = ts
  nonempty : ∀ t ∈ ts, t.span.start < t.span.stop
  boundaries : ∀ t ∈ ts,
    text.isBoundary t.span.start = true ∧ text.isBoundary t.span.stop = true
  increasing : ts.Pairwise fun t u => t.span.stop ≤ u.span.start
  marks : ∀ m span, ⟨.mark m, span⟩ ∈ ts →
    span.stop = span.start + 1 ∧ text.slice? span = some [m.char]
  texts : ∀ span, ⟨.text, span⟩ ∈ ts → ∃ before chars after,
    text = before ++ (chars ++ after) ∧
      span = ⟨before.byteLength, before.byteLength + chars.byteLength⟩ ∧
      (IsString chars after ∨ IsWord chars after ∧ WordBegins before (chars ++ after))
  /-- A mark is a token, or stands in a string or in a comment. -/
  structural : ∀ (m : Mark) a b, text = a ++ m.char :: b →
    ⟨.mark m, ⟨Text.byteLength a, Text.byteLength a + 1⟩⟩ ∈ ts ∨
    ∃ before chars after x y, text = before ++ (chars ++ after) ∧ a = before ++ x ∧
      chars = x ++ m.char :: y ∧
      (IsString chars after ∧
          ⟨.text, ⟨before.byteLength, before.byteLength + chars.byteLength⟩⟩ ∈ ts ∨
        (IsBlockComment chars after ∨ IsLineComment chars after) ∧ ∀ t ∈ ts,
          t.span.stop ≤ before.byteLength ∨ before.byteLength + chars.byteLength ≤ t.span.start)

theorem Mark.utf8Size_char (m : Mark) : m.char.utf8Size = 1 := by cases m <;> decide

/-- A token is a part of the text, and not an empty one. -/
theorem tokens_span {text : Text} {t : Token} (h : t ∈ tokens text) :
    t.span.start < t.span.stop ∧
      text.isBoundary t.span.start = true ∧ text.isBoundary t.span.stop = true := by
  obtain ⟨u, p, v, hsplit, -, hspan⟩ := piece_of_mem_tokens h
  obtain ⟨hshaped, -⟩ := Text.shaped_of_split hsplit
  obtain ⟨c, cs, hchars⟩ := List.exists_cons_of_ne_nil hshaped.chars_ne_nil
  have htext := Text.text_of_split hsplit
  have hsize : 0 < p.size := by
    rw [Piece.size, hchars]
    exact Nat.lt_of_lt_of_le c.utf8Size_pos (Nat.le_add_right _ _)
  rw [hspan]
  refine ⟨Nat.lt_add_of_pos_right hsize, ?_, ?_⟩
  · exact Text.isBoundary_iff.2 ⟨_, _, htext, rfl⟩
  · refine Text.isBoundary_iff.2 ⟨Piece.allChars u ++ p.chars, Piece.allChars v, ?_, ?_⟩
    · rw [htext, List.append_assoc]
    · exact Text.byteLength_append _ _

theorem tokens_mark {text : Text} {m : Mark} {span : Span} (h : ⟨.mark m, span⟩ ∈ tokens text) :
    span.stop = span.start + 1 ∧ text.slice? span = some [m.char] := by
  obtain ⟨u, p, v, hsplit, hkind, hspan⟩ := piece_of_mem_tokens h
  obtain rfl : p = .mark m := by
    cases p with
    | mark m' => obtain rfl := TokenKind.mark.inj (Option.some.inj hkind); rfl
    | blank | blockComment | lineComment | quoted | word => simp [Piece.tokenKind?] at hkind
  obtain rfl : span = _ := hspan
  have hin : (⟨Text.byteLength (Piece.allChars u), [m.char]⟩ : Fragment).In text :=
    ⟨Piece.allChars u, Piece.allChars v, by rw [Text.text_of_split hsplit]; simp [Piece.chars],
      rfl⟩
  refine ⟨?_, hin.slice?_span⟩
  show _ + (m.char.utf8Size + 0) = _ + 1
  rw [m.utf8Size_char]

theorem tokens_text {text : Text} {span : Span} (h : ⟨.text, span⟩ ∈ tokens text) :
    ∃ before chars after, text = before ++ (chars ++ after) ∧
      span = ⟨before.byteLength, before.byteLength + chars.byteLength⟩ ∧
      (IsString chars after ∨ IsWord chars after ∧ WordBegins before (chars ++ after)) := by
  obtain ⟨u, p, v, hsplit, hkind, hspan⟩ := piece_of_mem_tokens h
  refine ⟨_, _, _, Text.text_of_split hsplit, hspan, ?_⟩
  obtain ⟨hshaped, -⟩ := Text.shaped_of_split hsplit
  cases p with
  | quoted chars => exact Or.inl hshaped
  | word chars => exact Or.inr ⟨hshaped, Text.word_begins hsplit⟩
  | mark | blank | blockComment | lineComment => simp [Piece.tokenKind?] at hkind

/-- A mark is a token of its own, or stands in a string or in a comment. -/
theorem tokens_structural {text a b : Text} {m : Mark} (h : text = a ++ m.char :: b) :
    ⟨.mark m, ⟨Text.byteLength a, Text.byteLength a + 1⟩⟩ ∈ tokens text ∨
    ∃ before chars after x y, text = before ++ (chars ++ after) ∧ a = before ++ x ∧
      chars = x ++ m.char :: y ∧
      (IsString chars after ∧
          ⟨.text, ⟨before.byteLength, before.byteLength + chars.byteLength⟩⟩ ∈ tokens text ∨
        (IsBlockComment chars after ∨ IsLineComment chars after) ∧ ∀ t ∈ tokens text,
          t.span.stop ≤ before.byteLength ∨
            before.byteLength + chars.byteLength ≤ t.span.start) := by
  rw [← Text.allChars_piecesFrom .origin text] at h
  obtain ⟨u, p, v, x, y, hsplit, hp, rfl⟩ := Piece.exists_of_allChars h
  obtain ⟨hshaped, -⟩ := Text.shaped_of_split hsplit
  have htext := Text.text_of_split hsplit
  -- A single character stands before nothing of its own piece.
  have hsingle : ∀ {d : Char}, [d] = x ++ m.char :: y → x = [] ∧ d = m.char := by
    intro d hd
    cases x with
    | nil => exact ⟨rfl, (List.cons.inj hd).1⟩
    | cons e x => simp at hd
  cases p with
  | blank d =>
    obtain ⟨-, rfl⟩ := hsingle hp
    have hblank : isAsciiBlank m.char = true := hshaped
    cases m <;> exact absurd hblank (by decide)
  | mark m' =>
    obtain ⟨rfl, hm⟩ := hsingle hp
    obtain rfl : m' = m := Option.some.inj (by rw [← markOf?_char, hm, markOf?_char])
    have hmem := mem_tokens_of_split hsplit (show _ = some (TokenKind.mark m') from rfl)
    have hsize : (Piece.mark m').size = 1 := m'.utf8Size_char
    rw [hsize] at hmem
    rw [List.append_nil]
    exact Or.inl hmem
  | blockComment chars =>
    exact Or.inr ⟨_, chars, _, x, y, htext, rfl, hp, Or.inr ⟨Or.inl hshaped, fun t ht =>
      tokens_beside hsplit rfl ht⟩⟩
  | lineComment chars =>
    exact Or.inr ⟨_, chars, _, x, y, htext, rfl, hp, Or.inr ⟨Or.inr hshaped, fun t ht =>
      tokens_beside hsplit rfl ht⟩⟩
  | quoted chars =>
    exact Or.inr ⟨_, chars, _, x, y, htext, rfl, hp, Or.inl ⟨hshaped,
      mem_tokens_of_split hsplit rfl⟩⟩
  | word chars =>
    obtain rfl : chars = x ++ m.char :: y := hp
    have hplain := hshaped.plain m.char (by simp)
    cases m <;> exact absurd hplain (by decide)

/-- **The tokens partition the text:** they and the gaps of blanks and comments around them
    are the text, in the one way there is, and no mark outside of strings and comments is
    lost. -/
theorem tokens_partition (text : Text) : Tokenized text (tokens text) where
  laid := laid_iff.2 rfl
  unique := fun _ h => laid_iff.1 h
  nonempty := fun _ ht => (tokens_span ht).1
  boundaries := fun _ ht => (tokens_span ht).2
  increasing := tokensFrom_pairwise 0 _
  marks := fun _ _ h => tokens_mark h
  texts := fun _ h => tokens_text h
  structural := fun _ _ _ h => tokens_structural h

end StyleServer
