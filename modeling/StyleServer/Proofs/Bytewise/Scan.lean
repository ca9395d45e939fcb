/-
  The tokens of a text, read byte by byte.

  A scanner stands at a byte offset.  It slices the text only to look for the end of a comment;
  in a string, a backslash makes it pass two bytes, which may leave it inside a character or
  past the end of the text.

  * `Scanner`, `skipTrivia`, `nextToken`: the scanner and its loops.
  * `skipTrivia_le`, `nextToken_advances`: it does not go back, and each token takes it further,
    so that its loops end on every text and from every offset (`scanFrom`).
  * `stringEnd_eq`, `wordEnd_eq`, `skipTrivia_trivia`, `nextToken_token`: from between two
    characters, the scanner comes to the end of the next piece.
  * `tokenize_eq`: no slice fails, and the tokens are those of the pieces.
-/
import StyleServer.Proofs.Bytewise.Bytes
import StyleServer.Proofs.Piece.Shape

namespace StyleServer

/-! ## The scanner -/

/-- What a scanner is inside of. -/
inductive ScanState where
  | code
  | blockComment
  | lineComment
  | string (quote : UInt8)
deriving DecidableEq

/-- Inside of a comment, a step leads back to the code. -/
def ScanState.steps : ScanState → Nat
  | code => 0
  | blockComment | lineComment | string _ => 1

/-- A scanner of a text: the offset where it stands, and what decides whether a double slash
    opens a comment there. -/
structure Scanner where
  pos : Nat
  state : ScanState
  place : Place

namespace Scanner

/-- A scanner before a text. -/
def start : Scanner := ⟨0, .code, .origin⟩

/-- Between two characters, outside of strings and comments. -/
def between (before : Text) (place : Place) : Scanner := ⟨before.byteLength, .code, place⟩

/-- A token from an offset up to where the scanner stands. -/
def emit (s : Scanner) (kind : TokenKind) (start : Nat) : Token × Scanner :=
  (⟨kind, ⟨start, s.pos⟩⟩, { s with place := ⟨kind != .text, false⟩ })

end Scanner

/-- Passes over blanks and comments. -/
def skipTrivia (text : Text) (s : Scanner) : Checked Scanner :=
  match _hs : s.state with
  | .blockComment => do
    let rest ← Checked.sliceFrom text s.pos
    match rest.find? ['*', '/'] with
    | some i => skipTrivia text ⟨s.pos + (i + 2), .code, s.place⟩
    | none => skipTrivia text ⟨text.byteLength, .code, s.place⟩
  | .lineComment => do
    let rest ← Checked.sliceFrom text s.pos
    match rest.find? ['\n'] with
    | some i => skipTrivia text ⟨s.pos + (i + 1), .code, { s.place with lineStart := true }⟩
    | none => skipTrivia text ⟨text.byteLength, .code, { s.place with lineStart := true }⟩
  | .string _ => .ok s
  | .code =>
    match _h : text.byte? s.pos with
    | none => .ok s
    | some b =>
      if b = '\n'.toUInt8 then
        skipTrivia text ⟨s.pos + 1, .code, { s.place with lineStart := true }⟩
      else if isBlankByte b then skipTrivia text ⟨s.pos + 1, .code, s.place⟩
      else if b = '/'.toUInt8 ∧ text.byte? (s.pos + 1) = some '*'.toUInt8 then
        skipTrivia text ⟨s.pos + 2, .blockComment, s.place⟩
      else if b = '/'.toUInt8 ∧ text.byte? (s.pos + 1) = some '/'.toUInt8 ∧
          s.place.opensLineComment = true then
        skipTrivia text ⟨s.pos + 2, .lineComment, s.place⟩
      else .ok s
termination_by 2 * (text.byteLength - s.pos) + s.state.steps
decreasing_by
  all_goals simp only [_hs, ScanState.steps]
  iterate 4 omega
  all_goals
    have := Text.lt_of_byte? _h
    omega

/-- Where the inside of a string ends that is read from an offset on. -/
def stringEnd (text : Text) (quote : UInt8) (pos : Nat) : Nat :=
  match _h : text.byte? pos with
  | none => pos
  | some b =>
    if b = '\\'.toUInt8 then stringEnd text quote (min (pos + 2) text.byteLength)
    else if b = '\n'.toUInt8 then pos
    else if b = quote then pos + 1
    else stringEnd text quote (pos + 1)
termination_by text.byteLength - pos
decreasing_by
  all_goals
    have := Text.lt_of_byte? _h
    omega

/-- Where a run of ordinary bytes ends. -/
def wordEnd (text : Text) (pos : Nat) : Nat :=
  match _h : text.byte? pos with
  | none => pos
  | some b =>
    if endsWordByte b then pos
    else if b = '/'.toUInt8 ∧ text.byte? (pos + 1) = some '*'.toUInt8 then pos
    else wordEnd text (pos + 1)
termination_by text.byteLength - pos
decreasing_by
  have := Text.lt_of_byte? _h
  omega

namespace Scanner

/-- Behind the string that opens where the scanner stands. -/
def scanString (text : Text) (quote : UInt8) (s : Scanner) : Scanner :=
  let inside : Scanner := ⟨s.pos + 1, .string quote, s.place⟩
  { inside with pos := stringEnd text quote inside.pos, state := .code }

/-- Behind the run of ordinary bytes where the scanner stands, or behind one byte. -/
def scanWord (text : Text) (s : Scanner) : Scanner :=
  let stop := wordEnd text s.pos
  { s with pos := if stop = s.pos then s.pos + 1 else stop }

end Scanner

/-- The next token, and the scanner behind it. -/
def nextToken (text : Text) (s : Scanner) : Checked (Option (Token × Scanner)) := do
  let s ← skipTrivia text s
  match text.byte? s.pos with
  | none => return none
  | some b =>
    match markOfByte? b with
    | some m => return some ({ s with pos := s.pos + 1 }.emit (.mark m) s.pos)
    | none =>
      if isQuoteByte b then return some ((s.scanString text b).emit .text s.pos)
      else return some ((s.scanWord text).emit .text s.pos)

/-! ## The loops end -/

theorem skipTrivia_le {text : Text} {s s' : Scanner} (h : skipTrivia text s = .ok s') :
    s.pos ≤ s'.pos := by
  have hslice : ∀ {s : Scanner} {rest : Text}, Checked.sliceFrom text s.pos = .ok rest →
      s.pos ≤ text.byteLength := by
    intro s rest hs
    obtain ⟨a, rfl, hsize⟩ := Checked.sliceFrom_eq_ok hs
    rw [← hsize, Text.byteLength_append]
    exact Nat.le_add_right _ _
  fun_induction skipTrivia text s with
  | case1 s hstate ih₁ ih₂ =>
    obtain ⟨rest, hs, h⟩ := Checked.bind_eq_ok.1 h
    have hle := hslice hs
    split at h
    · have := ih₁ _ h
      dsimp only at this
      omega
    · have := ih₂ h
      dsimp only at this
      omega
  | case2 s hstate ih₁ ih₂ =>
    obtain ⟨rest, hs, h⟩ := Checked.bind_eq_ok.1 h
    have hle := hslice hs
    split at h
    · have := ih₁ _ h
      dsimp only at this
      omega
    · have := ih₂ h
      dsimp only at this
      omega
  | case3 | case4 | case9 => cases h; exact Nat.le_refl _
  | case5 s _ _ ih => exact Nat.le_trans (Nat.le_add_right _ _) (ih h)
  | case6 s _ b _ _ _ ih => exact Nat.le_trans (Nat.le_add_right _ _) (ih h)
  | case7 s _ b _ _ _ _ ih => exact Nat.le_trans (Nat.le_add_right _ _) (ih h)
  | case8 s _ b _ _ _ _ _ ih => exact Nat.le_trans (Nat.le_add_right _ _) (ih h)

theorem le_stringEnd (text : Text) (quote : UInt8) (pos : Nat) :
    pos ≤ stringEnd text quote pos := by
  fun_induction stringEnd text quote pos with
  | case1 | case3 => exact Nat.le_refl _
  | case2 pos hb ih =>
    have := Text.lt_of_byte? hb
    omega
  | case4 => exact Nat.le_succ _
  | case5 pos b hb _ _ _ ih => omega

theorem le_wordEnd (text : Text) (pos : Nat) : pos ≤ wordEnd text pos := by
  fun_induction wordEnd text pos with
  | case1 | case2 | case3 => exact Nat.le_refl _
  | case4 pos b hb _ _ ih => omega

/-- **Each token takes the scanner further,** and it begins inside of the text. -/
theorem nextToken_advances {text : Text} {s s' : Scanner} {t : Token}
    (h : nextToken text s = .ok (some (t, s'))) : s.pos < s'.pos ∧ s.pos < text.byteLength := by
  obtain ⟨at', hskip, h⟩ := Checked.bind_eq_ok.1 h
  have hle := skipTrivia_le hskip
  cases hb : text.byte? at'.pos with
  | none =>
    rw [hb] at h
    cases h
  | some b =>
    rw [hb] at h
    have hlt := Text.lt_of_byte? hb
    refine ⟨Nat.lt_of_le_of_lt hle ?_, Nat.lt_of_le_of_lt hle hlt⟩
    dsimp only at h
    split at h
    · cases h; exact Nat.lt_succ_self _
    split at h
    · cases h
      exact le_stringEnd text b (at'.pos + 1)
    · cases h
      have hword := le_wordEnd text at'.pos
      show at'.pos < if wordEnd text at'.pos = at'.pos then at'.pos + 1 else wordEnd text at'.pos
      split <;> omega

/-- The tokens from where a scanner stands. -/
def scanFrom (text : Text) (s : Scanner) : Checked (List Token) :=
  match _h : nextToken text s with
  | .error fault => .error fault
  | .ok none => .ok []
  | .ok (some (t, s')) => do
    let ts ← scanFrom text s'
    return t :: ts
termination_by text.byteLength - s.pos
decreasing_by
  have := nextToken_advances _h
  omega

/-- The tokens of a text. -/
def tokenize (text : Text) : Checked (List Token) := scanFrom text .start

/-! ## Strings and words -/

theorem stringEnd_none {text : Text} {pos : Nat} (h : text.byte? pos = none) (quote : UInt8) :
    stringEnd text quote pos = pos := by
  rw [stringEnd]
  split
  · rfl
  · next h' => simp [h] at h'

theorem stringEnd_some {text : Text} {pos : Nat} {b : UInt8} (h : text.byte? pos = some b)
    (quote : UInt8) :
    stringEnd text quote pos =
      if b = '\\'.toUInt8 then stringEnd text quote (min (pos + 2) text.byteLength)
      else if b = '\n'.toUInt8 then pos
      else if b = quote then pos + 1
      else stringEnd text quote (pos + 1) := by
  rw [stringEnd.eq_def]
  split
  · next h' => simp [h] at h'
  · next b' h' =>
    cases h.symm.trans h'
    rfl

/-- The later bytes of a character are passed over. -/
theorem stringEnd_inside (a : Text) (c : Char) (cs : Text) {quote : Char}
    (hq : quote.toNat < 0x80) {i : Nat} (hi : 0 < i) (hle : i ≤ c.utf8Size) :
    stringEnd (a ++ c :: cs) quote.toUInt8 (a.byteLength + i) =
      stringEnd (a ++ c :: cs) quote.toUInt8 (a.byteLength + c.utf8Size) := by
  refine walk (fun j hlo hhi => ?_) (Nat.add_le_add_left hle _)
  obtain ⟨k, rfl⟩ := Nat.exists_eq_add_of_le (Nat.le_trans (Nat.le_add_right _ i) hlo)
  obtain ⟨b, hb, hhigh⟩ := Text.byte?_inside a cs (c := c) (i := k) (by omega) (by omega)
  rw [stringEnd_some hb, if_neg (ne_of_high hhigh (by decide)),
    if_neg (ne_of_high hhigh (by decide)), if_neg (ne_of_high hhigh hq)]

/-- **A string ends at the same place,** wherever a backslash makes the scanner land. -/
theorem stringEnd_eq {quote : Char} (hq : quote.toNat < 0x80) (a cs : Text) :
    stringEnd (a ++ cs) quote.toUInt8 a.byteLength =
      a.byteLength + (throughQuote quote cs).1.byteLength := by
  induction cs using escapes_induction generalizing a with
  | nil => rw [List.append_nil, stringEnd_none (Text.byte?_end a)]; rfl
  | lone =>
    rw [stringEnd_some (Text.byte?_boundary a _ _), if_pos (leadByte_ascii (by decide))]
    have hend : min (a.byteLength + 2) (a ++ ['\\']).byteLength = (a ++ ['\\']).byteLength := by
      rw [Text.byteLength_append]
      exact Nat.min_eq_right (Nat.add_le_add_left (by decide) _)
    rw [hend, stringEnd_none (Text.byte?_end _), Text.byteLength_append]
    rfl
  | escape c cs ih =>
    have hc := c.utf8Size_pos
    have htext : a ++ '\\' :: c :: cs = (a ++ ['\\']) ++ c :: cs := by simp
    have hjump : min (a.byteLength + 2) (a ++ '\\' :: c :: cs).byteLength =
        Text.byteLength (a ++ ['\\']) + 1 := by
      have hone : '\\'.utf8Size = 1 := by decide
      simp only [Text.byteLength_append, Text.byteLength_cons, Text.byteLength_nil, hone]
      omega
    have hbehind : Text.byteLength (a ++ ['\\']) + c.utf8Size =
        Text.byteLength (a ++ ['\\', c]) := by
      simp [Nat.add_assoc]
    have ih := ih (a ++ ['\\', c])
    rw [List.append_assoc] at ih
    rw [stringEnd_some (Text.byte?_boundary a _ _), if_pos (leadByte_ascii (by decide)), hjump,
      htext, stringEnd_inside _ c cs hq Nat.one_pos hc, hbehind, ← htext]
    refine ih.trans ?_
    simp only [throughQuote, Text.byteLength_append, Text.byteLength_cons, Text.byteLength_nil]
    omega
  | other c cs hc ih =>
    rw [stringEnd_some (Text.byte?_boundary a _ _), throughQuote_cons hc]
    simp only [leadByte_eq_iff (show '\\'.toNat < 0x80 by decide),
      leadByte_eq_iff (show '\n'.toNat < 0x80 by decide), leadByte_eq_iff hq, if_neg hc]
    by_cases hn : c = '\n'
    · simp [hn]
    · by_cases hquote : c = quote
      · subst hquote
        simp [hn, Text.utf8Size_of_ascii hq]
      · have ih := ih (a ++ [c])
        rw [List.append_assoc, Text.byteLength_append] at ih
        rw [if_neg hn, if_neg hquote, if_neg hn, if_neg hquote,
          stringEnd_inside a c cs hq Nat.one_pos c.utf8Size_pos]
        refine ih.trans ?_
        simp only [Text.byteLength_cons, Text.byteLength_nil]
        omega

theorem wordEnd_none {text : Text} {pos : Nat} (h : text.byte? pos = none) :
    wordEnd text pos = pos := by
  rw [wordEnd]
  split
  · rfl
  · next h' => simp [h] at h'

theorem wordEnd_some {text : Text} {pos : Nat} {b : UInt8} (h : text.byte? pos = some b) :
    wordEnd text pos =
      if endsWordByte b then pos
      else if b = '/'.toUInt8 ∧ text.byte? (pos + 1) = some '*'.toUInt8 then pos
      else wordEnd text (pos + 1) := by
  rw [wordEnd.eq_def]
  split
  · next h' => simp [h] at h'
  · next b' h' =>
    cases h.symm.trans h'
    rfl

theorem wordEnd_inside (a : Text) (c : Char) (cs : Text) :
    wordEnd (a ++ c :: cs) (a.byteLength + 1) =
      wordEnd (a ++ c :: cs) (a.byteLength + c.utf8Size) := by
  refine walk (fun j hlo hhi => ?_) (Nat.add_le_add_left c.utf8Size_pos _)
  obtain ⟨k, rfl⟩ := Nat.exists_eq_add_of_le (Nat.le_trans (Nat.le_add_right _ 1) hlo)
  obtain ⟨b, hb, hhigh⟩ := Text.byte?_inside a cs (c := c) (i := k) (by omega) (by omega)
  rw [wordEnd_some hb, endsWordByte_of_high hhigh, if_neg (by decide),
    if_neg fun h => ne_of_high hhigh (by decide) h.1]

theorem wordEnd_eq (a cs : Text) :
    wordEnd (a ++ cs) a.byteLength = a.byteLength + (wordRest cs).1.byteLength := by
  induction cs using word_induction generalizing a with
  | nil => rw [List.append_nil, wordEnd_none (Text.byte?_end a)]; rfl
  | block cs =>
    rw [wordEnd_some (Text.byte?_boundary a _ _), if_neg (by decide), if_pos]
    · rfl
    · exact ⟨rfl, (Text.byte?_next_iff a (by decide) _ (by decide)).2 rfl⟩
  | stop c cs hc =>
    rw [wordEnd_some (Text.byte?_boundary a _ _), endsWordByte_leadByte, if_pos hc,
      wordRest_of_endsWord hc]
    rfl
  | other c cs hc hslash ih =>
    have hnot : ¬ (leadByte c = '/'.toUInt8 ∧
        (a ++ c :: cs).byte? (a.byteLength + 1) = some '*'.toUInt8) := by
      rintro ⟨h, hnext⟩
      obtain rfl := (leadByte_eq_iff (by decide)).1 h
      exact hslash rfl ((Text.byte?_next_iff a (by decide) _ (by decide)).1 hnext)
    have ih := ih (a ++ [c])
    rw [List.append_assoc, Text.byteLength_append] at ih
    rw [wordEnd_some (Text.byte?_boundary a _ _), endsWordByte_leadByte, hc, if_neg (by decide),
      if_neg hnot, wordEnd_inside, wordRest_cons hc hslash]
    refine ih.trans ?_
    simp only [Text.byteLength_cons, Text.byteLength_nil]
    omega

/-! ## Blanks and comments -/

theorem skipTrivia_code {text : Text} {pos : Nat} {b : UInt8} (h : text.byte? pos = some b)
    (place : Place) :
    skipTrivia text ⟨pos, .code, place⟩ =
      if b = '\n'.toUInt8 then
        skipTrivia text ⟨pos + 1, .code, { place with lineStart := true }⟩
      else if isBlankByte b then skipTrivia text ⟨pos + 1, .code, place⟩
      else if b = '/'.toUInt8 ∧ text.byte? (pos + 1) = some '*'.toUInt8 then
        skipTrivia text ⟨pos + 2, .blockComment, place⟩
      else if b = '/'.toUInt8 ∧ text.byte? (pos + 1) = some '/'.toUInt8 ∧
          place.opensLineComment = true then
        skipTrivia text ⟨pos + 2, .lineComment, place⟩
      else .ok ⟨pos, .code, place⟩ := by
  rw [skipTrivia.eq_def]
  dsimp only
  split
  · next h' => simp [h] at h'
  · next b' h' =>
    cases h.symm.trans h'
    rfl

theorem skipTrivia_end {text : Text} {pos : Nat} (h : text.byte? pos = none) (place : Place) :
    skipTrivia text ⟨pos, .code, place⟩ = .ok ⟨pos, .code, place⟩ := by
  rw [skipTrivia.eq_def]
  dsimp only
  split
  · rfl
  · next h' => simp [h] at h'

/-- Inside a block comment, the text can be sliced, and its end is found. -/
theorem skipTrivia_blockComment (a cs : Text) (place : Place) :
    skipTrivia (a ++ cs) ⟨a.byteLength, .blockComment, place⟩ =
      skipTrivia (a ++ cs)
        ⟨a.byteLength + (throughCommentEnd cs).1.byteLength, .code, place⟩ := by
  rw [skipTrivia]
  simp only [Checked.sliceFrom_append, Checked.ok_bind]
  have hfind := Text.find?_commentEnd cs
  cases hf : cs.find? ['*', '/'] with
  | none =>
    rw [hf, Option.map_none, Option.getD_none] at hfind
    rw [← hfind, Text.byteLength_append]
  | some i =>
    rw [hf, Option.map_some, Option.getD_some] at hfind
    rw [← hfind]

theorem skipTrivia_lineComment (a cs : Text) (place : Place) :
    skipTrivia (a ++ cs) ⟨a.byteLength, .lineComment, place⟩ =
      skipTrivia (a ++ cs) ⟨a.byteLength + (throughNewline cs).1.byteLength, .code,
        { place with lineStart := true }⟩ := by
  rw [skipTrivia]
  simp only [Checked.sliceFrom_append, Checked.ok_bind]
  have hfind := Text.find?_lineEnd cs
  cases hf : cs.find? ['\n'] with
  | none =>
    rw [hf, Option.map_none, Option.getD_none] at hfind
    rw [← hfind, Text.byteLength_append]
  | some i =>
    rw [hf, Option.map_some, Option.getD_some] at hfind
    rw [← hfind]

/-- A blank or a comment is passed over. -/
theorem skipTrivia_trivia {before : Text} {place : Place} {c : Char} {cs rest : Text} {p : Piece}
    (h : CutsOff place c cs p rest) (hp : p.tokenKind? = none) :
    skipTrivia (before ++ c :: cs) (.between before place) =
      skipTrivia (before ++ c :: cs) (.between (before ++ p.chars) (place.after p)) := by
  have hsecond : ∀ {d : Char} {cs : Text}, d.toNat < 0x80 →
      (before ++ '/' :: d :: cs).byte? (before.byteLength + 1) = some d.toUInt8 := by
    intro d cs hd
    exact (Text.byte?_next_iff before (by decide) _ hd).2 rfl
  have hslash : leadByte '/' = '/'.toUInt8 := leadByte_ascii (by decide)
  cases h with
  | blank hb =>
    have hbehind : Text.byteLength (before ++ [c]) = before.byteLength + 1 := by
      simp [Text.utf8Size_of_ascii (ascii_of_isAsciiBlank hb)]
    rw [Scanner.between, skipTrivia_code (Text.byte?_boundary before c _), Scanner.between,
      Piece.chars, hbehind]
    by_cases hn : c = '\n'
    · rw [if_pos ((leadByte_eq_iff (by decide)).2 hn), Place.after, if_pos hn]
    · rw [if_neg fun h => hn ((leadByte_eq_iff (by decide)).1 h), isBlankByte_leadByte, if_pos hb,
        Place.after, if_neg hn]
  | block cs =>
    have htext : before ++ '/' :: '*' :: cs = (before ++ ['/', '*']) ++ cs := by simp
    have hbehind : before.byteLength + 2 = Text.byteLength (before ++ ['/', '*']) := by
      rw [Text.byteLength_append]
      rfl
    rw [Scanner.between, skipTrivia_code (Text.byte?_boundary before '/' _), if_neg (by decide),
      if_neg (by decide), if_pos ⟨hslash, hsecond (by decide)⟩, hbehind, htext,
      skipTrivia_blockComment, Scanner.between, Piece.chars, Place.after]
    simp [Nat.add_assoc]
  | line cs ho =>
    have htext : before ++ '/' :: '/' :: cs = (before ++ ['/', '/']) ++ cs := by simp
    have hbehind : before.byteLength + 2 = Text.byteLength (before ++ ['/', '/']) := by
      rw [Text.byteLength_append]
      rfl
    have hstar : ¬ (leadByte '/' = '/'.toUInt8 ∧ (before ++ '/' :: '/' :: cs).byte?
        (before.byteLength + 1) = some '*'.toUInt8) := by
      rintro ⟨-, h⟩
      rw [hsecond (by decide)] at h
      exact absurd h (by decide)
    rw [Scanner.between, skipTrivia_code (Text.byte?_boundary before '/' _), if_neg (by decide),
      if_neg (by decide), if_neg hstar, if_pos ⟨hslash, hsecond (by decide), ho⟩, hbehind, htext,
      skipTrivia_lineComment, Scanner.between, Piece.chars, Place.after]
    simp [Nat.add_assoc]
  | mark | quoted | word => simp [Piece.tokenKind?] at hp

/-- Before a token, the scanner stays. -/
theorem skipTrivia_here {before : Text} {place : Place} {c : Char} {cs : Text}
    (hblank : isAsciiBlank c = false) (hblock : c = '/' → cs.head? ≠ some '*')
    (hline : c = '/' → place.opensLineComment = true → cs.head? ≠ some '/') :
    skipTrivia (before ++ c :: cs) (.between before place) = .ok (.between before place) := by
  have hn : c ≠ '\n' := by
    rintro rfl
    exact absurd hblank (by decide)
  rw [Scanner.between, skipTrivia_code (Text.byte?_boundary before c _),
    if_neg fun h => hn ((leadByte_eq_iff (by decide)).1 h), isBlankByte_leadByte, hblank,
    if_neg (by decide), if_neg, if_neg]
  · rintro ⟨hlead, hnext, ho⟩
    obtain rfl := (leadByte_eq_iff (by decide)).1 hlead
    exact hline rfl ho ((Text.byte?_next_iff before (by decide) _ (by decide)).1 hnext)
  · rintro ⟨hlead, hnext⟩
    obtain rfl := (leadByte_eq_iff (by decide)).1 hlead
    exact hblock rfl ((Text.byte?_next_iff before (by decide) _ (by decide)).1 hnext)

/-! ## Tokens -/

/-- **A token is read as it is cut off.** -/
theorem nextToken_token {before : Text} {place : Place} {c : Char} {cs rest : Text} {p : Piece}
    (h : CutsOff place c cs p rest) {kind : TokenKind} (hp : p.tokenKind? = some kind) :
    nextToken (before ++ c :: cs) (.between before place) =
      .ok (some (⟨kind, ⟨before.byteLength, before.byteLength + p.size⟩⟩,
        .between (before ++ p.chars) (place.after p))) := by
  cases h with
  | blank | block | line => simp [Piece.tokenKind?] at hp
  | @mark _ _ m hm =>
    obtain rfl := markOf?_eq_some hm
    obtain rfl := Option.some.inj hp
    have hslash : m.char ≠ '/' := by cases m <;> decide
    have hhere : skipTrivia (before ++ m.char :: cs) (.between before place) =
        .ok (.between before place) :=
      skipTrivia_here (isAsciiBlank_mark hm) (fun h => absurd h hslash) fun h => absurd h hslash
    rw [nextToken, hhere, Checked.ok_bind, Scanner.between, Text.byte?_boundary]
    dsimp only
    rw [markOfByte?_leadByte, hm, Piece.size, Piece.byteLength_mark, Scanner.between,
      Text.byteLength_append, Piece.byteLength_mark]
    rfl
  | quoted hs hq =>
    obtain rfl := Option.some.inj hp
    have hascii := ascii_of_isQuote hq
    have htext : before ++ c :: cs = (before ++ [c]) ++ cs := by simp
    have hbehind : before.byteLength + 1 = Text.byteLength (before ++ [c]) := by
      simp [Text.utf8Size_of_ascii hascii]
    have hstop : stringEnd (before ++ c :: cs) (leadByte c) (before.byteLength + 1) =
        before.byteLength + Text.byteLength (c :: (throughQuote c cs).1) := by
      rw [leadByte_ascii hascii, hbehind, htext, stringEnd_eq hascii]
      simp [Nat.add_assoc]
    rw [nextToken, skipTrivia_here hs.not_blank hs.not_block hs.not_line, Checked.ok_bind,
      Scanner.between, Text.byte?_boundary]
    dsimp only
    rw [markOfByte?_leadByte, hs.not_mark, isQuoteByte_leadByte]
    simp only [hq, if_true, Scanner.scanString, hstop, Scanner.emit, Piece.size, Piece.chars,
      Place.after, Scanner.between, Text.byteLength_append, Checked.pure_eq_ok]
    rfl
  | word hs hq =>
    obtain rfl := Option.some.inj hp
    have hends : endsWord c = false := endsWord_of_startsText hs hq
    have hstop : wordEnd (before ++ c :: cs) before.byteLength =
        before.byteLength + Text.byteLength (c :: (wordRest cs).1) := by
      rw [wordEnd_eq, wordRest_cons hends hs.not_block]
    have hne : before.byteLength + Text.byteLength (c :: (wordRest cs).1) ≠ before.byteLength := by
      have := c.utf8Size_pos
      rw [Text.byteLength_cons]
      omega
    rw [nextToken, skipTrivia_here hs.not_blank hs.not_block hs.not_line, Checked.ok_bind,
      Scanner.between, Text.byte?_boundary]
    dsimp only
    rw [markOfByte?_leadByte, hs.not_mark, isQuoteByte_leadByte]
    simp only [hq, Bool.false_eq_true, if_false, Scanner.scanWord, hstop, hne, Scanner.emit,
      Piece.size, Piece.chars, Place.after, Scanner.between, Text.byteLength_append,
      Checked.pure_eq_ok]
    rfl

theorem scanFrom_token {text : Text} {s s' : Scanner} {t : Token}
    (h : nextToken text s = .ok (some (t, s'))) {ts : List Token} (hs : scanFrom text s' = .ok ts) :
    scanFrom text s = .ok (t :: ts) := by
  rw [scanFrom]
  split
  · next h' => rw [h] at h'; cases h'
  · next h' => rw [h] at h'; cases h'
  · next h' =>
    cases h.symm.trans h'
    rw [hs]
    rfl

/-- **The tokens from between two characters on** are those of the pieces that follow. -/
theorem scanFrom_eq (before cs : Text) (place : Place) :
    scanFrom (before ++ cs) (.between before place) =
      .ok (tokensFrom before.byteLength (Text.piecesFrom place cs)) := by
  fun_induction Text.piecesFrom place cs generalizing before with
  | case1 place =>
    have hend : nextToken before (.between before place) = .ok none := by
      rw [nextToken, Scanner.between, skipTrivia_end (Text.byte?_end before), Checked.ok_bind,
        Text.byte?_end]
      rfl
    rw [List.append_nil, scanFrom]
    split
    · next h => rw [hend] at h; cases h
    · rfl
    · next h => rw [hend] at h; cases h
  | case2 place c cs ih =>
    have hcut := cutsOff_of_nextPiece (Prod.eta (nextPiece place c cs)).symm
    have hsplit := nextPiece_append place c cs
    generalize nextPiece place c cs = next at hcut hsplit ih
    have ih := ih (before ++ next.1.chars)
    rw [List.append_assoc, hsplit, Text.byteLength_append] at ih
    rw [tokensFrom]
    cases hp : next.1.tokenKind? with
    | none =>
      -- Behind the blank or comment, the scanner finds the same token.
      have hnext : nextToken (before ++ c :: cs) (.between before place) =
          nextToken (before ++ c :: cs)
            (.between (before ++ next.1.chars) (place.after next.1)) := by
        rw [nextToken, skipTrivia_trivia hcut hp, nextToken]
      rw [scanFrom, hnext, ← scanFrom]
      exact ih
    | some kind => exact scanFrom_token (nextToken_token hcut hp) ih

/-- **The tokens of a text are read byte by byte,** without a slice that fails. -/
theorem tokenize_eq (text : Text) : tokenize text = .ok (tokens text) :=
  scanFrom_eq [] text .origin

end StyleServer
