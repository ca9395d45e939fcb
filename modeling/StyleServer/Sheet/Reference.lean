/-
  References to variables inside values.

  A reference is `var`, in any case and not behind a word character, then an
  opening parenthesis and a name that starts with two dashes, with blanks
  allowed before and behind the parenthesis.  References do not overlap: the
  search goes on behind the name.
-/
import StyleServer.Text.Utf8
import StyleServer.Text.Blank
import StyleServer.Text.WordChar

namespace StyleServer

/-- An occurrence of a variable's name in a value. -/
structure VariableRef where
  name : String
  /-- Span of the name alone. -/
  span : Span
deriving DecidableEq

/-- A character of a variable's name behind its dashes. -/
def isReferenceChar (c : Char) : Bool := !isBlank c && c != ',' && c != ')'

/-- Up to and with the opening parenthesis and the blanks behind it, when the text
    begins with `var(`; and the rest. -/
def referenceOpening? : Text → Option (Text × Text)
  | v :: a :: r :: cs =>
    if v.toLower = 'v' ∧ a.toLower = 'a' ∧ r.toLower = 'r' then
      match cs.dropWhile isBlank with
      | '(' :: inside =>
        some ([v, a, r] ++ cs.takeWhile isBlank ++ ['('] ++ inside.takeWhile isBlank,
          inside.dropWhile isBlank)
      | _ => none
    else none
  | _ => none

/-- A reference at the front of a text: what stands before its name, the name, and
    the rest. -/
def referenceAt? (text : Text) : Option (Text × Text × Text) :=
  match referenceOpening? text with
  | some (opening, '-' :: '-' :: inside) =>
    if (inside.takeWhile isReferenceChar).isEmpty then none
    else some (opening, '-' :: '-' :: inside.takeWhile isReferenceChar,
      inside.dropWhile isReferenceChar)
  | _ => none

theorem referenceOpening?_append {text opening rest : Text}
    (h : referenceOpening? text = some (opening, rest)) : text = opening ++ rest := by
  unfold referenceOpening? at h
  split at h
  · split at h
    · split at h
      · next heq =>
        simp only [Option.some.injEq, Prod.mk.injEq] at h
        obtain ⟨rfl, rfl⟩ := h
        simp only [List.append_assoc, List.cons_append, List.nil_append,
          List.takeWhile_append_dropWhile, ← heq]
      · simp at h
    · simp at h
  · simp at h

/-- A reference takes its place in the text. -/
theorem referenceAt?_append {text opening name rest : Text}
    (h : referenceAt? text = some (opening, name, rest)) : text = opening ++ name ++ rest := by
  unfold referenceAt? at h
  split at h
  · next heq =>
    split at h
    · simp at h
    · simp only [Option.some.injEq, Prod.mk.injEq] at h
      obtain ⟨rfl, rfl, rfl⟩ := h
      rw [referenceOpening?_append heq]
      simp
  · simp at h

theorem referenceAt?_name_length {text opening name rest : Text}
    (h : referenceAt? text = some (opening, name, rest)) : 2 < name.length := by
  unfold referenceAt? at h
  split at h
  · split at h
    · simp at h
    · next hne =>
      simp only [Option.some.injEq, Prod.mk.injEq] at h
      obtain ⟨rfl, rfl, rfl⟩ := h
      have := List.length_pos_iff.2 fun h => hne (List.isEmpty_iff.2 h)
      simp only [List.length_cons]
      omega
  · simp at h

/-- The references in a text at a byte offset; `inWord` says that a word character
    stands before it. -/
def variableRefsFrom (inWord : Bool) (offset : Nat) (text : Text) : List VariableRef :=
  match text with
  | [] => []
  | c :: cs =>
    match _h : if inWord then none else referenceAt? (c :: cs) with
    | some (opening, name, rest) =>
      let start := offset + Text.byteLength opening
      let stop := start + Text.byteLength name
      ⟨String.ofList name, ⟨start, stop⟩⟩ ::
        variableRefsFrom ((name.getLast?.map isWordChar).getD false) stop rest
    | none => variableRefsFrom (isWordChar c) (offset + c.utf8Size) cs
termination_by text.length
decreasing_by
  · split at _h
    · simp at _h
    · have := congrArg List.length (referenceAt?_append _h)
      have := referenceAt?_name_length _h
      simp only [List.length_append, List.length_cons] at *
      omega
  · simp

/-- The references in a value that begins at a byte offset. -/
def variableRefs (value : Text) (start : Nat) : List VariableRef := variableRefsFrom false start value

end StyleServer
