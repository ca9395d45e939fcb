/-
  Texts as lists of characters, measured in bytes and in UTF-16 units.

  Offsets count the bytes of the UTF-8 form, so an offset may fall inside a
  character.  `Text.cutAt?` and `Text.slice?` fail there; every other function
  of the library that cuts a text does so between characters.

  * `byteLength_append`: lengths add up.
  * `cutAt?_eq_some_iff`: a cut exists exactly at the length of a prefix of the
    text, and gives back that prefix.
  * `isBoundary`: the offsets between characters; `isBoundary_iff`.
-/
import StyleServer.Text.Span

namespace StyleServer

/-- A text, character by character. -/
abbrev Text := List Char

namespace Text

/-- Length of the UTF-8 form in bytes. -/
def byteLength : Text → Nat
  | [] => 0
  | c :: cs => c.utf8Size + byteLength cs

@[simp] theorem byteLength_nil : byteLength [] = 0 := rfl

@[simp] theorem byteLength_cons (c : Char) (cs : Text) :
    byteLength (c :: cs) = c.utf8Size + byteLength cs := rfl

@[simp] theorem byteLength_append (a b : Text) :
    byteLength (a ++ b) = byteLength a + byteLength b := by
  induction a with
  | nil => simp
  | cons c a ih => simp [ih, Nat.add_assoc]

/-- Number of UTF-16 units of a character. -/
def units (c : Char) : Nat := if c.toNat < 0x10000 then 1 else 2

/-- Length of the UTF-16 form in units. -/
def unitLength : Text → Nat
  | [] => 0
  | c :: cs => units c + unitLength cs

/-- The text before and after a byte offset; `none` inside a character and past
    the end. -/
def cutAt? : Text → Nat → Option (Text × Text)
  | cs, 0 => some ([], cs)
  | [], _ + 1 => none
  | c :: cs, n + 1 =>
    if c.utf8Size ≤ n + 1 then
      (cutAt? cs (n + 1 - c.utf8Size)).map fun (a, b) => (c :: a, b)
    else none

/-- An offset between two characters, or at an end of the text. -/
def isBoundary (text : Text) (offset : Nat) : Bool := (cutAt? text offset).isSome

/-- The text between two byte offsets; `none` unless both ends are in range, in
    order and between characters. -/
def slice? (text : Text) (span : Span) : Option Text :=
  if span.start ≤ span.stop then do
    let (_, rest) ← cutAt? text span.start
    let (inside, _) ← cutAt? rest (span.stop - span.start)
    return inside
  else none

/-- Why a text has no part before an offset. -/
inductive CutError where
  | insideCharacter
deriving DecidableEq

/-- The text before and after a byte offset, which goes to the end when it lies past
    it. -/
def cut (text : Text) (offset : Nat) : Except CutError (Text × Text) :=
  match cutAt? text (min offset (byteLength text)) with
  | some parts => .ok parts
  | none => .error .insideCharacter

@[simp] theorem cutAt?_zero (text : Text) : cutAt? text 0 = some ([], text) := by
  cases text <;> rfl

/-- A text can be cut at the length of any of its prefixes. -/
theorem cutAt?_byteLength (a b : Text) : cutAt? (a ++ b) (byteLength a) = some (a, b) := by
  induction a with
  | nil => simp
  | cons c a ih =>
    have hc := c.utf8Size_pos
    obtain ⟨n, hn⟩ : ∃ n, c.utf8Size + byteLength a = n + 1 :=
      ⟨c.utf8Size + byteLength a - 1, by omega⟩
    have hr : n + 1 - c.utf8Size = byteLength a := by omega
    simp only [List.cons_append, byteLength_cons, hn, cutAt?, hr, ih]
    rw [if_pos (by omega)]
    rfl

/-- **Cuts lie between characters.**  An offset cuts a text exactly when it is the
    length of a prefix. -/
theorem cutAt?_eq_some_iff {text a b : Text} {n : Nat} :
    cutAt? text n = some (a, b) ↔ text = a ++ b ∧ n = byteLength a := by
  constructor
  · intro h
    induction text generalizing n a with
    | nil =>
      cases n with
      | zero => simp_all
      | succ n => simp [cutAt?] at h
    | cons c cs ih =>
      cases n with
      | zero => simp_all
      | succ n =>
        simp only [cutAt?] at h
        split at h
        · obtain ⟨⟨a', b'⟩, h', he⟩ := Option.map_eq_some_iff.1 h
          simp only [Prod.mk.injEq] at he
          obtain ⟨rfl, rfl⟩ := he
          obtain ⟨rfl, hn⟩ := ih h'
          refine ⟨rfl, ?_⟩
          simp only [byteLength_cons]
          omega
        · simp at h
  · rintro ⟨rfl, rfl⟩
    exact cutAt?_byteLength a b

theorem isBoundary_iff {text : Text} {offset : Nat} :
    text.isBoundary offset = true ↔ ∃ a b, text = a ++ b ∧ byteLength a = offset := by
  constructor
  · intro h
    obtain ⟨⟨a, b⟩, hcut⟩ := Option.isSome_iff_exists.1 h
    obtain ⟨htext, hsize⟩ := cutAt?_eq_some_iff.1 hcut
    exact ⟨a, b, htext, hsize.symm⟩
  · rintro ⟨a, b, rfl, rfl⟩
    exact Option.isSome_iff_exists.2 ⟨_, cutAt?_byteLength a b⟩

theorem isBoundary_byteLength (a b : Text) : (a ++ b).isBoundary a.byteLength = true :=
  isBoundary_iff.2 ⟨a, b, rfl, rfl⟩

end Text

end StyleServer
