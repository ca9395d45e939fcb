/-
  Cutting a text into pieces.

  * `Text.pieces`: the pieces of a text, in order.
  * `Text.allChars_pieces`: nothing is lost, the pieces put together are the text.
  * `tokens`: the marks, strings and words with their spans.
-/
import StyleServer.Piece.Basic
import StyleServer.Text.Blank

namespace StyleServer

/-! ## The inside of a piece -/

/-- Up to and with the first `*/`, and the rest. -/
def throughCommentEnd : Text → Text × Text
  | [] => ([], [])
  | '*' :: '/' :: rest => (['*', '/'], rest)
  | c :: cs => let (inside, rest) := throughCommentEnd cs; (c :: inside, rest)

/-- Up to and with the first line feed, and the rest. -/
def throughNewline : Text → Text × Text
  | [] => ([], [])
  | c :: cs =>
    if c = '\n' then ([c], cs)
    else let (inside, rest) := throughNewline cs; (c :: inside, rest)

/-- The inside of a string behind its opening quote, with the closing one, and
    the rest.  A backslash hides the character behind it; a line feed that is not
    hidden ends the string and stays outside. -/
def throughQuote (quote : Char) : Text → Text × Text
  | [] => ([], [])
  | '\\' :: [] => (['\\'], [])
  | '\\' :: c :: cs => let (inside, rest) := throughQuote quote cs; ('\\' :: c :: inside, rest)
  | c :: cs =>
    if c = '\n' then ([], c :: cs)
    else if c = quote then ([c], cs)
    else let (inside, rest) := throughQuote quote cs; (c :: inside, rest)

/-- A quote of either kind. -/
def isQuote (c : Char) : Bool := c == '"' || c == '\''

/-- A character that ends a word wherever it stands. -/
def endsWord (c : Char) : Bool :=
  c == '\x7b' || c == '\x7d' || c == ';' || isQuote c || isAsciiBlank c

/-- The rest of a word: up to a character that ends words, or to a block comment. -/
def wordRest : Text → Text × Text
  | [] => ([], [])
  | '/' :: '*' :: cs => ([], '/' :: '*' :: cs)
  | c :: cs =>
    if endsWord c then ([], c :: cs)
    else let (inside, rest) := wordRest cs; (c :: inside, rest)

@[simp] theorem throughCommentEnd_append (cs : Text) :
    (throughCommentEnd cs).1 ++ (throughCommentEnd cs).2 = cs := by
  fun_induction throughCommentEnd cs <;> simp_all

@[simp] theorem throughNewline_append (cs : Text) :
    (throughNewline cs).1 ++ (throughNewline cs).2 = cs := by
  fun_induction throughNewline cs <;> simp_all

@[simp] theorem throughQuote_append (quote : Char) (cs : Text) :
    (throughQuote quote cs).1 ++ (throughQuote quote cs).2 = cs := by
  fun_induction throughQuote quote cs <;> simp_all

@[simp] theorem wordRest_append (cs : Text) : (wordRest cs).1 ++ (wordRest cs).2 = cs := by
  fun_induction wordRest cs <;> simp_all

/-! ## The next piece -/

/-- The mark written by a character. -/
def markOf? (c : Char) : Option Mark :=
  if c = '\x7b' then some .openBrace
  else if c = '\x7d' then some .closeBrace
  else if c = ';' then some .semicolon
  else none

/-- The string or word that begins with `c`, and the rest. -/
def nextText (c : Char) (cs : Text) : Piece × Text :=
  if isQuote c then
    let (inside, rest) := throughQuote c cs
    (.quoted (c :: inside), rest)
  else
    let (inside, rest) := wordRest cs
    (.word (c :: inside), rest)

/-- The piece at the front of `c :: cs`, and the rest. -/
def nextPiece (place : Place) (c : Char) (cs : Text) : Piece × Text :=
  if isAsciiBlank c then (.blank c, cs)
  else match markOf? c with
  | some m => (.mark m, cs)
  | none =>
    match c, cs with
    | '/', '*' :: rest =>
      let (inside, rest) := throughCommentEnd rest
      (.blockComment ('/' :: '*' :: inside), rest)
    | '/', '/' :: rest =>
      if place.opensLineComment then
        let (inside, rest) := throughNewline rest
        (.lineComment ('/' :: '/' :: inside), rest)
      else nextText '/' ('/' :: rest)
    | c, cs => nextText c cs

theorem markOf?_eq_some {c : Char} {m : Mark} (h : markOf? c = some m) : m.char = c := by
  unfold markOf? at h
  split at h
  · simp_all [Mark.char]
    subst h; rfl
  · split at h
    · simp_all
      subst h; rfl
    · split at h
      · simp_all
        subst h; rfl
      · simp at h

@[simp] theorem nextText_append (c : Char) (cs : Text) :
    (nextText c cs).1.chars ++ (nextText c cs).2 = c :: cs := by
  unfold nextText
  split
  · simp [Piece.chars]
  · simp [Piece.chars]

/-- The next piece and the rest make up the text. -/
@[simp] theorem nextPiece_append (place : Place) (c : Char) (cs : Text) :
    (nextPiece place c cs).1.chars ++ (nextPiece place c cs).2 = c :: cs := by
  unfold nextPiece
  split
  · simp [Piece.chars]
  · split
    · next h => simp [Piece.chars, markOf?_eq_some h]
    · split
      · simp [Piece.chars]
      · split
        · simp [Piece.chars]
        · exact nextText_append ..
      · exact nextText_append ..

theorem nextText_chars_ne_nil (c : Char) (cs : Text) : (nextText c cs).1.chars ≠ [] := by
  unfold nextText
  split <;> simp [Piece.chars]

/-- A piece has at least one character. -/
theorem nextPiece_chars_ne_nil (place : Place) (c : Char) (cs : Text) :
    (nextPiece place c cs).1.chars ≠ [] := by
  unfold nextPiece
  split
  · simp [Piece.chars]
  · split
    · simp [Piece.chars]
    · split
      · simp [Piece.chars]
      · split
        · simp [Piece.chars]
        · exact nextText_chars_ne_nil _ _
      · exact nextText_chars_ne_nil _ _

/-- The rest behind a piece is no longer than the text behind its first character. -/
theorem length_nextPiece_le (place : Place) (c : Char) (cs : Text) :
    (nextPiece place c cs).2.length ≤ cs.length := by
  have h := congrArg List.length (nextPiece_append place c cs)
  have h₀ := List.length_pos_iff.2 (nextPiece_chars_ne_nil place c cs)
  simp only [List.length_append, List.length_cons] at h
  omega

/-! ## All pieces -/

namespace Text

/-- The pieces of a text that begins at `place`. -/
def piecesFrom (place : Place) : Text → List Piece
  | [] => []
  | c :: cs =>
    (nextPiece place c cs).1 ::
      piecesFrom (place.after (nextPiece place c cs).1) (nextPiece place c cs).2
termination_by text => text.length
decreasing_by exact Nat.lt_succ_of_le (length_nextPiece_le ..)

/-- The pieces of a text. -/
def pieces (text : Text) : List Piece := piecesFrom .origin text

theorem allChars_piecesFrom (place : Place) (text : Text) :
    Piece.allChars (piecesFrom place text) = text := by
  fun_induction piecesFrom place text with
  | case1 => rfl
  | case2 place c cs ih =>
    simp only [Piece.allChars] at ih
    simp [Piece.allChars, ih]

/-- **Nothing is lost:** the pieces put together are the text. -/
theorem allChars_pieces (text : Text) : Piece.allChars (pieces text) = text :=
  allChars_piecesFrom ..

end Text

/-! ## Tokens -/

/-- What a token is: a mark, or a string or word. -/
inductive TokenKind where
  | mark (m : Mark)
  | text
deriving DecidableEq

/-- A piece that is neither blank nor comment, by its span. -/
structure Token where
  kind : TokenKind
  span : Span
deriving DecidableEq

/-- The kind of token that a piece makes, if it makes one. -/
def Piece.tokenKind? : Piece → Option TokenKind
  | .mark m => some (.mark m)
  | .quoted _ | .word _ => some .text
  | .blank _ | .blockComment _ | .lineComment _ => none

/-- The tokens of pieces that begin at a byte offset. -/
def tokensFrom (offset : Nat) : List Piece → List Token
  | [] => []
  | p :: ps =>
    let rest := tokensFrom (offset + p.size) ps
    match p.tokenKind? with
    | some kind => ⟨kind, ⟨offset, offset + p.size⟩⟩ :: rest
    | none => rest

/-- The tokens of a text. -/
def tokens (text : Text) : List Token := tokensFrom 0 text.pieces

end StyleServer
