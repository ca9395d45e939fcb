/-
  Declarations: a name, a colon and a value.

  The value may hold comments: block comments anywhere, and double-slash comments
  that are the first text of a later line.  The stored value leaves them out,
  and so do the references found in it.
-/
import StyleServer.Piece.Cut
import StyleServer.Sheet.Reference
import StyleServer.Text.Fragment

namespace StyleServer

/-! ## Comments inside a value -/

/-- A part of a value: a comment, or what the value keeps. -/
inductive ValuePart where
  | kept (chars : Text)
  | comment (chars : Text)
deriving DecidableEq

namespace ValuePart

/-- The characters of a part. -/
def chars : ValuePart → Text
  | kept cs | comment cs => cs

/-- The characters that the value keeps of a part. -/
def keptChars : ValuePart → Text
  | kept cs => cs
  | comment _ => []

/-- The part is a comment. -/
def isComment : ValuePart → Bool
  | kept _ => false
  | comment _ => true

/-- Spans of the comments among parts that begin at a byte offset. -/
def commentSpans (offset : Nat) : List ValuePart → List Span
  | [] => []
  | p :: ps =>
    let stop := offset + Text.byteLength p.chars
    let rest := commentSpans stop ps
    if p.isComment then ⟨offset, stop⟩ :: rest else rest

end ValuePart

/-- Up to the first line feed, which stays outside, and the rest. -/
def untilNewline (cs : Text) : Text × Text := (cs.takeWhile (· != '\n'), cs.dropWhile (· != '\n'))

/-- The rest of a string inside a value, with the quote or the line feed that ends
    it, and what follows. -/
def throughQuoteOrNewline (quote : Char) : Text → Text × Text
  | [] => ([], [])
  | '\\' :: [] => (['\\'], [])
  | '\\' :: c :: cs =>
    let (inside, rest) := throughQuoteOrNewline quote cs; ('\\' :: c :: inside, rest)
  | c :: cs =>
    if c = quote ∨ c = '\n' then ([c], cs)
    else let (inside, rest) := throughQuoteOrNewline quote cs; (c :: inside, rest)

/-- The part at the front of `c :: cs`, whether the next one begins a line, and the
    rest. -/
def nextValuePart (lineStart : Bool) (c : Char) (cs : Text) : ValuePart × Bool × Text :=
  if isQuote c then
    let (inside, rest) := throughQuoteOrNewline c cs
    (.kept (c :: inside), false, rest)
  else if isAsciiBlank c then (.kept [c], lineStart || c == '\n', cs)
  else match c, cs with
  | '/', '*' :: rest =>
    let (inside, rest) := throughCommentEnd rest
    (.comment ('/' :: '*' :: inside), lineStart, rest)
  | '/', '/' :: rest =>
    if lineStart then
      let (inside, rest) := untilNewline rest
      (.comment ('/' :: '/' :: inside), lineStart, rest)
    else (.kept ['/'], false, '/' :: rest)
  | c, cs => (.kept [c], false, cs)

@[simp] theorem throughQuoteOrNewline_append (quote : Char) (cs : Text) :
    (throughQuoteOrNewline quote cs).1 ++ (throughQuoteOrNewline quote cs).2 = cs := by
  fun_induction throughQuoteOrNewline quote cs <;> simp_all

@[simp] theorem nextValuePart_append (lineStart : Bool) (c : Char) (cs : Text) :
    (nextValuePart lineStart c cs).1.chars ++ (nextValuePart lineStart c cs).2.2 = c :: cs := by
  unfold nextValuePart
  split
  · simp [ValuePart.chars]
  · split
    · simp [ValuePart.chars]
    · split
      · simp [ValuePart.chars]
      · split
        · simp [ValuePart.chars, untilNewline]
        · simp [ValuePart.chars]
      · simp [ValuePart.chars]

theorem nextValuePart_chars_ne_nil (lineStart : Bool) (c : Char) (cs : Text) :
    (nextValuePart lineStart c cs).1.chars ≠ [] := by
  unfold nextValuePart
  split
  · simp [ValuePart.chars]
  · split
    · simp [ValuePart.chars]
    · split
      · simp [ValuePart.chars]
      · split <;> simp [ValuePart.chars]
      · simp [ValuePart.chars]

theorem length_nextValuePart_le (lineStart : Bool) (c : Char) (cs : Text) :
    (nextValuePart lineStart c cs).2.2.length ≤ cs.length := by
  have h := congrArg List.length (nextValuePart_append lineStart c cs)
  have h₀ := List.length_pos_iff.2 (nextValuePart_chars_ne_nil lineStart c cs)
  simp only [List.length_append, List.length_cons] at h
  omega

/-- The parts of a value that goes on at or behind the start of a line. -/
def valuePartsFrom (lineStart : Bool) : Text → List ValuePart
  | [] => []
  | c :: cs =>
    (nextValuePart lineStart c cs).1 ::
      valuePartsFrom (nextValuePart lineStart c cs).2.1 (nextValuePart lineStart c cs).2.2
termination_by text => text.length
decreasing_by exact Nat.lt_succ_of_le (length_nextValuePart_le ..)

/-- The parts of a value.  A value stands behind its colon, not at the start of a
    line. -/
def valueParts (value : Text) : List ValuePart := valuePartsFrom false value

/-- The parts put together are the value. -/
theorem flatMap_chars_valuePartsFrom (lineStart : Bool) (value : Text) :
    (valuePartsFrom lineStart value).flatMap ValuePart.chars = value := by
  fun_induction valuePartsFrom lineStart value with
  | case1 => rfl
  | case2 lineStart c cs ih => simp [ih]

/-- A value without its comments.  Lines that they leave blank go too. -/
def withoutComments (value : Text) : Text :=
  let parts := valueParts value
  if parts.any ValuePart.isComment then
    let kept := (Fragment.whole (parts.flatMap ValuePart.keptChars)).splitOn '\n'
    let lines := (kept.map Fragment.chars).filter fun line => !line.all isBlank
    Text.trim (['\n'].intercalate (lines.map Text.trimEnd))
  else value

/-! ## Declarations -/

/-- A name with a value. -/
structure Declaration where
  name : String
  /-- The value without comments. -/
  value : String
  /-- References to variables outside comments, in order. -/
  refs : List VariableRef
  nameSpan : Span
  /-- Span of the value as written. -/
  valueSpan : Span
  /-- From the first character of the name to the end of the value. -/
  span : Span
deriving DecidableEq

namespace Declaration

/-- A declaration of a variable. -/
def isCustom (d : Declaration) : Bool := ['-', '-'].isPrefixOf d.name.toList

/-- The value is made from variables. -/
def usesVariables (d : Declaration) : Bool := !d.refs.isEmpty

/-- The references in a value that lie in none of its comments. -/
def refsOf (value : Fragment) : List VariableRef :=
  let comments := ValuePart.commentSpans value.start (valueParts value.chars)
  (variableRefs value.chars value.start).filter fun ref => !comments.any (·.holds ref.span)

/-- The declaration written by a statement: `none` without a colon, and without a
    name before it. -/
def ofFragment? (statement : Fragment) : Option Declaration :=
  match statement.cutAt ':' with
  | none => none
  | some (before, behind) =>
    let name := before.trim
    let value := behind.trim
    if name.chars.isEmpty then none
    else some {
      name := name.text
      value := String.ofList (withoutComments value.chars)
      refs := refsOf value
      nameSpan := name.span
      valueSpan := value.span
      span := name.span.cover value.span }

end Declaration

end StyleServer
