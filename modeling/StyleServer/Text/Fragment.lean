/-
  Fragments: pieces of a text that know where they stand.

  A fragment carries its characters and the byte offset of the first of them.
  Cutting a fragment gives fragments again, so spans are never computed apart
  from the characters they cover.

  * `Fragment.In`: the fragment stands in a text.
  * `Fragment.trim`, `Fragment.splitOn`, `Fragment.cutAt`: the cuts used to read
    selectors, declarations and lines.
-/
import StyleServer.Text.Utf8
import StyleServer.Text.Blank

namespace StyleServer

namespace Text

/-- Without blanks at the end. -/
def trimEnd (text : Text) : Text := (text.reverse.dropWhile isBlank).reverse

/-- Without blanks on either side. -/
def trim (text : Text) : Text := trimEnd (text.dropWhile isBlank)

end Text

/-- Characters of a text, with the byte offset of the first. -/
structure Fragment where
  start : Nat
  chars : Text
deriving DecidableEq

namespace Fragment

/-- Byte offset behind the last character. -/
def stop (f : Fragment) : Nat := f.start + Text.byteLength f.chars

/-- The span covered by a fragment. -/
def span (f : Fragment) : Span := ⟨f.start, f.stop⟩

/-- The characters as a string. -/
def text (f : Fragment) : String := String.ofList f.chars

/-- A whole text. -/
def whole (text : Text) : Fragment := ⟨0, text⟩

/-- The fragment at a span of a text; `none` when a cut would fall inside a
    character or out of range. -/
def slice? (text : Text) (span : Span) : Option Fragment :=
  (Text.slice? text span).map fun chars => ⟨span.start, chars⟩

/-- The fragment stands at its offset in `text`. -/
def In (f : Fragment) (text : Text) : Prop :=
  ∃ before after, text = before ++ f.chars ++ after ∧ Text.byteLength before = f.start

/-- Without the leading characters that satisfy `p`. -/
def dropWhile (p : Char → Bool) (f : Fragment) : Fragment :=
  ⟨f.start + Text.byteLength (f.chars.takeWhile p), f.chars.dropWhile p⟩

/-- The leading characters that satisfy `p`. -/
def takeWhile (p : Char → Bool) (f : Fragment) : Fragment := ⟨f.start, f.chars.takeWhile p⟩

/-- Without trailing blanks. -/
def trimEnd (f : Fragment) : Fragment := ⟨f.start, f.chars.trimEnd⟩

/-- Without blanks on either side. -/
def trim (f : Fragment) : Fragment := (f.dropWhile isBlank).trimEnd

/-- The part before and the part behind the first `sep`; `none` without one. -/
def cutAt (sep : Char) (f : Fragment) : Option (Fragment × Fragment) :=
  match f.chars.dropWhile (· != sep) with
  | [] => none
  | c :: after =>
    let before := f.chars.takeWhile (· != sep)
    some (⟨f.start, before⟩, ⟨f.start + Text.byteLength before + c.utf8Size, after⟩)

/-- The parts between the occurrences of `sep` in characters from offset `start` on. -/
def splitFrom (sep : Char) (start : Nat) : Text → List Fragment
  | [] => [⟨start, []⟩]
  | c :: cs =>
    let rest := splitFrom sep (start + c.utf8Size) cs
    if c == sep then ⟨start, []⟩ :: rest
    else match rest with
      | [] => [⟨start, [c]⟩]
      | f :: fs => ⟨start, c :: f.chars⟩ :: fs

/-- The parts between the occurrences of `sep`, one more than there are of those. -/
def splitOn (sep : Char) (f : Fragment) : List Fragment := splitFrom sep f.start f.chars

/-- A fragment that stands in a text is the slice of the text at its span. -/
theorem In.slice?_span {f : Fragment} {text : Text} (h : f.In text) :
    Text.slice? text f.span = some f.chars := by
  obtain ⟨before, after, rfl, hb⟩ := h
  have h₁ : Text.cutAt? (before ++ (f.chars ++ after)) f.start = some (before, f.chars ++ after) :=
    Text.cutAt?_eq_some_iff.2 ⟨rfl, hb.symm⟩
  have h₂ : Text.cutAt? (f.chars ++ after) (Text.byteLength f.chars) = some (f.chars, after) :=
    Text.cutAt?_byteLength ..
  simp [Text.slice?, span, stop, h₁, h₂]

end Fragment

/-- The parts of a text between the occurrences of `sep`. -/
def Text.splitOn (sep : Char) (text : Text) : List Text :=
  ((Fragment.whole text).splitOn sep).map Fragment.chars

end StyleServer
