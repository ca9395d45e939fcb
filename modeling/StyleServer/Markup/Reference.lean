/-
  Class names in layout markup.

  A class attribute is `class`, not behind a word character, an equals sign and
  a value in double or single quotes, with blanks allowed around the sign.  The
  words of its value are references to classes.  Nothing else of the markup is
  read, so an attribute counts wherever it stands.

  * `classAttributes`: the values of all class attributes, in order.
  * `classReferences`: the words of those values, in order.
-/
import StyleServer.Text.Fragment
import StyleServer.Text.WordChar

namespace StyleServer

/-- A class name in a class attribute. -/
structure ClassReference where
  name : String
  span : Span
deriving DecidableEq

/-- Up to the quote of its value, when the text begins with a class attribute; the
    quote; and the rest behind it. -/
def classOpening? : Text → Option (Text × Char × Text)
  | 'c' :: 'l' :: 'a' :: 's' :: 's' :: cs =>
    match cs.dropWhile isBlank with
    | '=' :: value =>
      match value.dropWhile isBlank with
      | quote :: rest =>
        if quote = '"' ∨ quote = '\'' then
          some (['c', 'l', 'a', 's', 's'] ++ cs.takeWhile isBlank ++ ['='] ++
            value.takeWhile isBlank, quote, rest)
        else none
      | [] => none
    | _ => none
  | _ => none

/-- A class attribute at the front of a text: what stands before its value, the
    value, and the rest behind its closing quote. -/
def classAttribute? (text : Text) : Option (Text × Text × Text) :=
  match classOpening? text with
  | some (opening, quote, inside) =>
    match inside.dropWhile (· != quote) with
    | _ :: rest => some (opening ++ [quote], inside.takeWhile (· != quote), rest)
    | [] => none
  | none => none

theorem classOpening?_append {text opening rest : Text} {quote : Char}
    (h : classOpening? text = some (opening, quote, rest)) : text = opening ++ quote :: rest := by
  unfold classOpening? at h
  split at h
  · split at h
    · next heq =>
      split at h
      · next heq' =>
        split at h
        · simp only [Option.some.injEq, Prod.mk.injEq] at h
          obtain ⟨rfl, rfl, rfl⟩ := h
          simp only [List.append_assoc, List.cons_append, List.nil_append, ← heq',
            List.takeWhile_append_dropWhile, ← heq]
        · simp at h
      · simp at h
    · simp at h
  · simp at h

/-- What is left behind a class attribute is shorter. -/
theorem classAttribute?_length {text opening value rest : Text}
    (h : classAttribute? text = some (opening, value, rest)) : rest.length < text.length := by
  unfold classAttribute? at h
  split at h
  · next inside heq =>
    split at h
    · next heq' =>
      simp only [Option.some.injEq, Prod.mk.injEq] at h
      obtain ⟨rfl, rfl, rfl⟩ := h
      have hle := congrArg List.length (classOpening?_append heq)
      have hdrop := (heq' ▸ List.dropWhile_suffix _ : _ :: _ <:+ inside).length_le
      simp only [List.length_append, List.length_cons] at *
      omega
    · simp at h
  · simp at h

/-- The values of the class attributes in a text at a byte offset; `inWord` says that
    a word character stands before it. -/
def classAttributesFrom (inWord : Bool) (offset : Nat) (text : Text) : List Fragment :=
  match text with
  | [] => []
  | c :: cs =>
    match _h : if inWord then none else classAttribute? (c :: cs) with
    | some (opening, value, rest) =>
      let start := offset + Text.byteLength opening
      ⟨start, value⟩ :: classAttributesFrom false (start + Text.byteLength value + 1) rest
    | none => classAttributesFrom (isWordChar c) (offset + c.utf8Size) cs
termination_by text.length
decreasing_by
  · split at _h
    · simp at _h
    · exact classAttribute?_length _h
  · simp

/-- The values of the class attributes of a text, in order. -/
def classAttributes (text : Text) : List Fragment := classAttributesFrom false 0 text

/-- The words of characters that begin at a byte offset. -/
def wordsFrom (offset : Nat) : Text → List Fragment
  | [] => []
  | c :: cs =>
    let rest := wordsFrom (offset + c.utf8Size) cs
    if isAsciiBlank c then rest
    else match cs, rest with
      | d :: _, f :: fs => if isAsciiBlank d then ⟨offset, [c]⟩ :: f :: fs
        else ⟨offset, c :: f.chars⟩ :: fs
      | _, fs => ⟨offset, [c]⟩ :: fs

/-- The words of a fragment, which blanks separate. -/
def Fragment.words (f : Fragment) : List Fragment := wordsFrom f.start f.chars

/-- The class names of a text, in order. -/
def classReferences (text : Text) : List ClassReference :=
  (classAttributes text).flatMap fun value =>
    value.words.map fun word => ⟨word.text, word.span⟩

/-- The class name at an offset. -/
def classReferenceAt? (text : Text) (offset : Nat) : Option ClassReference :=
  (classReferences text).find? (·.span.touches offset)

end StyleServer
