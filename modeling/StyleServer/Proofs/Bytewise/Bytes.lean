/-
  Reading a text at byte offsets.

  An offset that is computed may fall inside a character, past the end of the text or below
  zero.  A slice, an index or a difference fails there, and the failure says which it was.

  * `Checked`: a result, or the `Fault` of the first operation that failed; `Checked.slice`,
    `Checked.item`, `Checked.minus` are the operations that can fail.  `exists_slice_iff`: a
    slice needs ends that are in order and between characters.
  * `Text.byte?`, `byte?_boundary`, `byte?_inside`: the bytes of a character.  Only the first
    one can be the byte of an ASCII character, and then the character is that one.
  * `walk`: a loop that passes over the later bytes of a character stands behind it.
  * `Text.find?`, `Text.indicesOf`: where something stands in a text.
-/
import StyleServer.Proofs.Piece.Append
import StyleServer.Proofs.Text.Fragment
import StyleServer.Sheet.Declaration
import StyleServer.Text.Bytes

namespace StyleServer

/-! ## Operations that can fail -/

/-- An operation that has no result. -/
inductive Fault where
  /-- The ends are out of range, out of order or inside a character. -/
  | slice (span : Span)
  /-- There are not so many items. -/
  | index (i : Nat)
  /-- `b` is greater than `a`. -/
  | difference (a b : Nat)
deriving DecidableEq

/-- A result, or why there is none. -/
abbrev Checked := Except Fault

namespace Checked

/-- The part of a text at a span. -/
def slice (text : Text) (span : Span) : Checked Text :=
  match text.slice? span with
  | some chars => .ok chars
  | none => .error (.slice span)

/-- The part of a text from an offset to its end. -/
def sliceFrom (text : Text) (start : Nat) : Checked Text := slice text ⟨start, text.byteLength⟩

/-- The item of an index. -/
def item {α : Type} (items : List α) (i : Nat) : Checked α :=
  match items[i]? with
  | some x => .ok x
  | none => .error (.index i)

/-- The difference of two numbers. -/
def minus (a b : Nat) : Checked Nat := if b ≤ a then .ok (a - b) else .error (.difference a b)

@[simp] theorem ok_bind {α β : Type} (a : α) (f : α → Checked β) :
    ((.ok a : Checked α) >>= f) = f a := rfl

@[simp] theorem pure_eq_ok {α : Type} (a : α) : (pure a : Checked α) = .ok a := rfl

/-- What comes out of two steps comes out of the second. -/
theorem bind_eq_ok {α β : Type} {x : Checked α} {f : α → Checked β} {b : β} :
    (x >>= f) = .ok b ↔ ∃ a, x = .ok a ∧ f a = .ok b := by
  cases x with
  | error fault =>
    constructor
    · intro h
      cases h
    · rintro ⟨a, ha, -⟩
      cases ha
  | ok a =>
    constructor
    · intro h
      exact ⟨a, rfl, h⟩
    · rintro ⟨a', ha, h⟩
      cases ha
      exact h

/-- A step that never fails can be taken for each of several items. -/
theorem mapM_eq_ok {α β : Type} {f : α → Checked β} {g : α → β} (h : ∀ x, f x = .ok (g x))
    (items : List α) : items.mapM f = .ok (items.map g) := by
  rw [funext h]
  exact List.mapM_pure

theorem minus_of_le {a b : Nat} (h : b ≤ a) : minus a b = .ok (a - b) := if_pos h

@[simp] theorem minus_add (a b : Nat) : minus (a + b) b = .ok a := by
  rw [minus_of_le (Nat.le_add_left b a), Nat.add_sub_cancel]

theorem item_eq_ok {α : Type} {items : List α} {i : Nat} {x : α} (h : items[i]? = some x) :
    item items i = .ok x := by
  rw [item, h]

theorem slice_of_in {text : Text} {f : Fragment} (h : f.In text) :
    slice text f.span = .ok f.chars := by
  rw [slice, h.slice?_span]

/-- The part of a text between two others. -/
theorem slice_append (a chars b : Text) :
    slice (a ++ (chars ++ b)) ⟨a.byteLength, a.byteLength + chars.byteLength⟩ = .ok chars :=
  slice_of_in (f := ⟨a.byteLength, chars⟩) ⟨a, b, by simp, rfl⟩

theorem sliceFrom_append (a b : Text) : sliceFrom (a ++ b) a.byteLength = .ok b := by
  have h := slice_append a b []
  rw [List.append_nil] at h
  rw [sliceFrom, Text.byteLength_append]
  exact h

/-- **What is sliced** stands between two others, with its ends between characters. -/
theorem slice_eq_ok_iff {text chars : Text} {span : Span} :
    slice text span = .ok chars ↔ ∃ a b, text = a ++ (chars ++ b) ∧
      span = ⟨a.byteLength, a.byteLength + chars.byteLength⟩ := by
  constructor
  · intro h
    unfold slice Text.slice? at h
    split at h
    · next inside hslice =>
      obtain rfl : inside = chars := by cases h; rfl
      split at hslice
      · next hle =>
        obtain ⟨⟨a, rest⟩, hcut, hinner⟩ := Option.bind_eq_some_iff.1 hslice
        obtain ⟨⟨inside', b⟩, hcut', hinside⟩ := Option.bind_eq_some_iff.1 hinner
        obtain ⟨rfl, hstart⟩ := Text.cutAt?_eq_some_iff.1 hcut
        obtain ⟨rfl, hsize⟩ := Text.cutAt?_eq_some_iff.1 hcut'
        obtain rfl : inside' = inside := Option.some.inj hinside
        obtain ⟨start, stop⟩ := span
        simp only at hle hstart hsize
        obtain rfl : stop = a.byteLength + inside'.byteLength := by omega
        exact ⟨a, b, rfl, by rw [hstart]⟩
      · simp at hslice
    · simp at h
  · rintro ⟨a, b, rfl, rfl⟩
    exact slice_append a chars b

/-- **A slice fails** unless its ends are in order and between characters of the text. -/
theorem exists_slice_iff {text : Text} {span : Span} :
    (∃ chars, slice text span = .ok chars) ↔ span.start ≤ span.stop ∧
      text.isBoundary span.start = true ∧ text.isBoundary span.stop = true := by
  constructor
  · rintro ⟨chars, h⟩
    obtain ⟨a, b, rfl, rfl⟩ := slice_eq_ok_iff.1 h
    refine ⟨Nat.le_add_right _ _, Text.isBoundary_byteLength a _, ?_⟩
    rw [← List.append_assoc, ← Text.byteLength_append]
    exact Text.isBoundary_byteLength (a ++ chars) b
  · rintro ⟨hle, hstart, hstop⟩
    obtain ⟨a, rest, htext, ha⟩ := Text.isBoundary_iff.1 hstart
    obtain ⟨a', b, rfl, ha'⟩ := Text.isBoundary_iff.1 hstop
    obtain ⟨chars, rfl, -⟩ := Text.append_split htext.symm (by rw [ha, ha']; exact hle)
    refine ⟨chars, slice_eq_ok_iff.2 ⟨a, b, by rw [List.append_assoc], ?_⟩⟩
    rw [← Text.byteLength_append, ha, ha']

/-- A character of two bytes cannot be cut. -/
example : slice "é".toList ⟨0, 1⟩ = .error (.slice ⟨0, 1⟩) := rfl

/-- A slice to the end begins between two characters. -/
theorem sliceFrom_eq_ok {text rest : Text} {start : Nat} (h : sliceFrom text start = .ok rest) :
    ∃ a, text = a ++ rest ∧ a.byteLength = start := by
  obtain ⟨a, b, rfl, hspan⟩ := slice_eq_ok_iff.1 h
  obtain ⟨hstart, hstop⟩ := Span.mk.inj hspan
  -- Nothing stands behind a part that is as long as the rest.
  have hb : b = [] := by
    refine Classical.byContradiction fun hne => ?_
    have hpos := Text.byteLength_pos hne
    simp only [Text.byteLength_append] at hstop
    omega
  exact ⟨a, by rw [hb, List.append_nil], hstart.symm⟩

end Checked

/-! ## The bytes of a character -/

/-- The first byte of a character. -/
def leadByte (c : Char) : UInt8 := (String.utf8EncodeChar c).headD 0

/-- A character of ASCII is its only byte; the bytes of any other are not those of ASCII. -/
theorem utf8EncodeChar_cases (c : Char) :
    (c.toNat < 0x80 ∧ String.utf8EncodeChar c = [c.toUInt8] ∧ c.toUInt8.toNat = c.toNat) ∨
      (0x80 ≤ c.toNat ∧ ∀ b ∈ String.utf8EncodeChar c, 0x80 ≤ b.toNat) := by
  have hhigh : ∀ n k, 0x80 ≤ k → n + k < 256 → 0x80 ≤ (UInt8.ofNat (n + k)).toNat := by
    intro n k hk hlt
    rw [UInt8.toNat_ofNat']
    omega
  have hval : c.toNat = c.val.toNat := rfl
  by_cases hc : c.val.toNat ≤ 0x7f
  · refine Or.inl ⟨by omega, ?_, ?_⟩
    · simp only [String.utf8EncodeChar, hc, if_true]
      rfl
    · show c.val.toUInt8.toNat = c.val.toNat
      rw [UInt32.toNat_toUInt8]
      omega
  · refine Or.inr ⟨by omega, ?_⟩
    intro b hb
    simp only [String.utf8EncodeChar, hc, if_false] at hb
    split at hb
    · simp only [List.mem_cons, List.not_mem_nil, or_false] at hb
      rcases hb with rfl | rfl <;> exact hhigh _ _ (by omega) (by omega)
    · split at hb
      · simp only [List.mem_cons, List.not_mem_nil, or_false] at hb
        rcases hb with rfl | rfl | rfl <;> exact hhigh _ _ (by omega) (by omega)
      · simp only [List.mem_cons, List.not_mem_nil, or_false] at hb
        rcases hb with rfl | rfl | rfl | rfl <;> exact hhigh _ _ (by omega) (by omega)

/-- The first byte of a character is that of an ASCII character only if the two are one. -/
theorem leadByte_eq_iff {c d : Char} (hd : d.toNat < 0x80) : leadByte c = d.toUInt8 ↔ c = d := by
  have hdnat : d.toUInt8.toNat = d.toNat := by
    rcases utf8EncodeChar_cases d with ⟨-, -, h⟩ | ⟨hhigh, -⟩
    · exact h
    · omega
  constructor
  · intro h
    rcases utf8EncodeChar_cases c with ⟨-, hbytes, hnat⟩ | ⟨-, hhigh⟩
    · rw [leadByte, hbytes, List.headD_cons] at h
      have hn : c.toNat = d.toNat := by rw [← hnat, h, hdnat]
      exact Char.ext (UInt32.toNat_inj.1 hn)
    · -- The first byte of another character is not one of ASCII.
      obtain ⟨b, bs, hbytes⟩ := List.exists_cons_of_ne_nil
        (List.ne_nil_of_length_pos (by rw [String.length_utf8EncodeChar]; exact c.utf8Size_pos))
      have hb := hhigh b (by rw [hbytes]; exact List.mem_cons_self)
      rw [leadByte, hbytes, List.headD_cons] at h
      rw [h] at hb
      omega
  · rintro rfl
    rcases utf8EncodeChar_cases c with ⟨-, hbytes, -⟩ | ⟨hhigh, -⟩
    · rw [leadByte, hbytes, List.headD_cons]
    · omega

theorem leadByte_ascii {d : Char} (hd : d.toNat < 0x80) : leadByte d = d.toUInt8 :=
  (leadByte_eq_iff hd).2 rfl

/-- A byte that no ASCII character has. -/
theorem ne_of_high {b : UInt8} (hb : 0x80 ≤ b.toNat) {d : Char} (hd : d.toNat < 0x80) :
    b ≠ d.toUInt8 := by
  rintro rfl
  rcases utf8EncodeChar_cases d with ⟨-, -, h⟩ | ⟨hhigh, -⟩ <;> omega

namespace Text

@[simp] theorem bytes_cons (c : Char) (cs : Text) :
    bytes (c :: cs) = String.utf8EncodeChar c ++ bytes cs := rfl

@[simp] theorem bytes_append (a b : Text) : bytes (a ++ b) = bytes a ++ bytes b :=
  List.flatMap_append

@[simp] theorem length_bytes (text : Text) : text.bytes.length = text.byteLength := by
  induction text with
  | nil => rfl
  | cons c cs ih => rw [bytes_cons, List.length_append, String.length_utf8EncodeChar, ih]; rfl

/-- The byte at an offset. -/
def byte? (text : Text) (i : Nat) : Option UInt8 := text.bytes[i]?

theorem lt_of_byte? {text : Text} {i : Nat} {b : UInt8} (h : text.byte? i = some b) :
    i < text.byteLength := by
  obtain ⟨hi, -⟩ := List.getElem?_eq_some_iff.1 h
  rwa [length_bytes] at hi

theorem byte?_append (a b : Text) (i : Nat) : (a ++ b).byte? (a.byteLength + i) = b.byte? i := by
  rw [byte?, bytes_append, List.getElem?_append_right (by simp), length_bytes,
    Nat.add_sub_cancel_left]
  rfl

/-- No byte stands behind the end. -/
theorem byte?_end (text : Text) : text.byte? text.byteLength = none := by
  exact List.getElem?_eq_none_iff.2 (Nat.le_of_eq (length_bytes text))

/-- **Between characters,** the next byte is the first of the next character. -/
theorem byte?_boundary (a : Text) (c : Char) (cs : Text) :
    (a ++ c :: cs).byte? a.byteLength = some (leadByte c) := by
  have h := byte?_append a (c :: cs) 0
  rw [Nat.add_zero] at h
  obtain ⟨b, bs, hbytes⟩ := List.exists_cons_of_ne_nil
    (List.ne_nil_of_length_pos (by rw [String.length_utf8EncodeChar]; exact c.utf8Size_pos))
  rw [h, byte?, bytes_cons, leadByte, hbytes]
  rfl

/-- A byte of ASCII is read between characters if its character stands there. -/
theorem byte?_eq_iff (a cs : Text) {d : Char} (hd : d.toNat < 0x80) :
    (a ++ cs).byte? a.byteLength = some d.toUInt8 ↔ cs.head? = some d := by
  cases cs with
  | nil =>
    rw [List.append_nil, byte?_end]
    simp
  | cons c cs =>
    rw [byte?_boundary, Option.some.injEq, leadByte_eq_iff hd, List.head?_cons, Option.some.injEq]

/-- **Inside a character,** no byte is one of ASCII. -/
theorem byte?_inside (a : Text) {c : Char} (cs : Text) {i : Nat} (hi : 0 < i)
    (hlt : i < c.utf8Size) :
    ∃ b, (a ++ c :: cs).byte? (a.byteLength + i) = some b ∧ 0x80 ≤ b.toNat := by
  have hlength : i < (String.utf8EncodeChar c).length := by rwa [String.length_utf8EncodeChar]
  rcases utf8EncodeChar_cases c with ⟨-, hbytes, -⟩ | ⟨-, hhigh⟩
  · rw [hbytes, List.length_singleton] at hlength
    omega
  · refine ⟨_, ?_, hhigh _ (List.getElem_mem hlength)⟩
    rw [byte?_append, byte?, bytes_cons, List.getElem?_append_left hlength,
      List.getElem?_eq_getElem hlength]

theorem utf8Size_of_ascii {c : Char} (h : c.toNat < 0x80) : c.utf8Size = 1 := by
  rcases utf8EncodeChar_cases c with ⟨-, hbytes, -⟩ | ⟨hhigh, -⟩
  · rw [← String.length_utf8EncodeChar, hbytes]
    rfl
  · omega

/-- The last byte of a character is one of ASCII only if the character is. -/
theorem byte?_last (a : Text) (c : Char) (cs : Text) {d : Char} (hd : d.toNat < 0x80) :
    ∃ b, (a ++ c :: cs).byte? (a.byteLength + (c.utf8Size - 1)) = some b ∧
      (b = d.toUInt8 ↔ c = d) := by
  have hpos := c.utf8Size_pos
  by_cases hone : c.utf8Size = 1
  · rw [hone]
    exact ⟨leadByte c, byte?_boundary a c cs, leadByte_eq_iff hd⟩
  · obtain ⟨b, hb, hhigh⟩ := byte?_inside a (c := c) cs (i := c.utf8Size - 1) (by omega) (by omega)
    refine ⟨b, hb, ?_⟩
    constructor
    · intro heq
      exact absurd heq (ne_of_high hhigh hd)
    · rintro rfl
      exact absurd (utf8Size_of_ascii hd) hone

/-- Behind a character of ASCII stands the byte of the one that follows. -/
theorem byte?_next_iff (a : Text) {c : Char} (hc : c.toNat < 0x80) (cs : Text) {d : Char}
    (hd : d.toNat < 0x80) :
    (a ++ c :: cs).byte? (a.byteLength + 1) = some d.toUInt8 ↔ cs.head? = some d := by
  have h := byte?_eq_iff (a ++ [c]) cs hd
  rwa [List.append_assoc, List.singleton_append, byteLength_append, byteLength_cons,
    byteLength_nil, Nat.add_zero, utf8Size_of_ascii hc] at h

end Text

/-- A loop that moves on by one where it stands between `lo` and `hi` comes to `hi`. -/
theorem walk {α : Type} {f : Nat → α} {lo hi : Nat}
    (h : ∀ i, lo ≤ i → i < hi → f i = f (i + 1)) (hle : lo ≤ hi) : f lo = f hi := by
  obtain ⟨k, rfl⟩ := Nat.exists_eq_add_of_le hle
  induction k with
  | zero => rfl
  | succ k ih =>
    rw [ih (fun i hlo hi => h i hlo (by omega)) (Nat.le_add_right _ _)]
    exact h _ (Nat.le_add_right _ _) (by omega)

/-! ## Classes of bytes -/

/-- A byte of the blanks that separate words. -/
def isBlankByte (b : UInt8) : Bool :=
  b == ' '.toUInt8 || b == '\t'.toUInt8 || b == '\n'.toUInt8 || b == '\x0c'.toUInt8 ||
    b == '\r'.toUInt8

/-- The byte of a quote. -/
def isQuoteByte (b : UInt8) : Bool := b == '"'.toUInt8 || b == '\''.toUInt8

/-- A byte that ends a word wherever it stands. -/
def endsWordByte (b : UInt8) : Bool :=
  b == '\x7b'.toUInt8 || b == '\x7d'.toUInt8 || b == ';'.toUInt8 || isQuoteByte b || isBlankByte b

/-- The mark written by a byte. -/
def markOfByte? (b : UInt8) : Option Mark :=
  if b = '\x7b'.toUInt8 then some .openBrace
  else if b = '\x7d'.toUInt8 then some .closeBrace
  else if b = ';'.toUInt8 then some .semicolon
  else none

theorem ascii_of_isQuote {c : Char} (h : isQuote c = true) : c.toNat < 0x80 := by
  simp only [isQuote, Bool.or_eq_true, beq_iff_eq] at h
  rcases h with rfl | rfl <;> decide

theorem ascii_of_isAsciiBlank {c : Char} (h : isAsciiBlank c = true) : c.toNat < 0x80 := by
  simp only [isAsciiBlank, Bool.or_eq_true, beq_iff_eq] at h
  rcases h with (((rfl | rfl) | rfl) | rfl) | rfl <;> decide

theorem leadByte_beq (c : Char) {d : Char} (hd : d.toNat < 0x80) :
    (leadByte c == d.toUInt8) = (c == d) := by
  rw [Bool.eq_iff_iff, beq_iff_eq, beq_iff_eq, leadByte_eq_iff hd]

@[simp] theorem isBlankByte_leadByte (c : Char) : isBlankByte (leadByte c) = isAsciiBlank c := by
  simp (disch := decide) only [isBlankByte, isAsciiBlank, leadByte_beq]

@[simp] theorem isQuoteByte_leadByte (c : Char) : isQuoteByte (leadByte c) = isQuote c := by
  simp (disch := decide) only [isQuoteByte, isQuote, leadByte_beq]

@[simp] theorem endsWordByte_leadByte (c : Char) : endsWordByte (leadByte c) = endsWord c := by
  simp (disch := decide) only [endsWordByte, endsWord, leadByte_beq, isQuoteByte_leadByte,
    isBlankByte_leadByte]

@[simp] theorem markOfByte?_leadByte (c : Char) : markOfByte? (leadByte c) = markOf? c := by
  simp (disch := decide) only [markOfByte?, markOf?, leadByte_eq_iff]

theorem endsWordByte_of_high {b : UInt8} (hb : 0x80 ≤ b.toNat) : endsWordByte b = false := by
  have hne : ∀ {d : Char}, d.toNat < 0x80 → (b == d.toUInt8) = false := by
    intro d hd
    exact beq_eq_false_iff_ne.2 (ne_of_high hb hd)
  simp (disch := decide) only [endsWordByte, isQuoteByte, isBlankByte, hne, Bool.or_false]

/-! ## Where something stands -/

namespace Text

/-- The offset of the first occurrence of a pattern. -/
def find? (text pattern : Text) : Option Nat :=
  match text with
  | [] => if pattern.isEmpty then some 0 else none
  | c :: cs =>
    if pattern.isPrefixOf (c :: cs) then some 0 else (find? cs pattern).map (c.utf8Size + ·)

/-- The offsets of a character. -/
def indicesOf (sep : Char) : Text → List Nat
  | [] => []
  | c :: cs =>
    if c = sep then 0 :: (indicesOf sep cs).map (c.utf8Size + ·)
    else (indicesOf sep cs).map (c.utf8Size + ·)

/-- Where a comment ends is found. -/
theorem find?_commentEnd (cs : Text) :
    ((find? cs ['*', '/']).map (· + 2)).getD cs.byteLength =
      (throughCommentEnd cs).1.byteLength := by
  fun_induction throughCommentEnd cs with
  | case1 => rfl
  | case2 rest => rfl
  | case3 c cs hne inside rest heq ih =>
    have hnot : (['*', '/'].isPrefixOf (c :: cs)) = false := by
      refine Bool.eq_false_iff.2 fun h => ?_
      obtain ⟨more, hmore⟩ := List.isPrefixOf_iff_prefix.1 h
      obtain ⟨rfl, rfl⟩ := List.cons.inj hmore
      exact hne more rfl rfl
    rw [find?, hnot, byteLength_cons, byteLength_cons]
    rw [heq] at ih
    cases hf : find? cs ['*', '/'] with
    | none => rw [hf] at ih; simpa using ih
    | some i =>
      rw [hf] at ih
      simp only [Option.map_some, Option.getD_some, Bool.false_eq_true, if_false] at ih ⊢
      omega

/-- Where a line ends behind its line feed is found. -/
theorem find?_lineEnd (cs : Text) :
    ((find? cs ['\n']).map (· + 1)).getD cs.byteLength = (throughNewline cs).1.byteLength := by
  induction cs with
  | nil => rfl
  | cons c cs ih =>
    rw [throughNewline, find?]
    by_cases hc : c = '\n'
    · subst hc
      rfl
    · have hnot : (['\n'].isPrefixOf (c :: cs)) = false := by
        rw [List.isPrefixOf, beq_eq_false_iff_ne.2 fun h => hc h.symm, Bool.false_and]
      rw [if_neg hc, hnot]
      cases hf : find? cs ['\n'] with
      | none => rw [hf] at ih; simpa using ih
      | some i =>
        rw [hf] at ih
        simp only [Option.map_some, Option.getD_some, Bool.false_eq_true, if_false,
          byteLength_cons] at ih ⊢
        omega

/-- A character is found behind those that are not it. -/
theorem find?_char (sep : Char) (cs : Text) :
    find? cs [sep] = if sep ∈ cs then some (byteLength (cs.takeWhile (· != sep))) else none := by
  induction cs with
  | nil => simp [find?]
  | cons c cs ih =>
    by_cases hc : c = sep
    · simp [find?, hc]
    · have hne : (sep == c) = false := beq_eq_false_iff_ne.2 fun h => hc h.symm
      rw [find?, ih]
      simp only [List.isPrefixOf, hne, Bool.false_and, Bool.false_eq_true, if_false,
        List.mem_cons, Ne.symm hc, false_or]
      split
      · simp [hc]
      · rfl

/-- Where a line ends is found. -/
theorem find?_newline (cs : Text) :
    (find? cs ['\n']).getD cs.byteLength = (untilNewline cs).1.byteLength := by
  rw [find?_char]
  split
  · rfl
  · next h =>
    have hall : ∀ c ∈ cs, (c != '\n') = true := by
      intro c hc
      simpa using fun he : c = '\n' => h (he ▸ hc)
    have hself := takeWhile_stop hall (b := []) (by simp)
    rw [List.append_nil] at hself
    rw [Option.getD_none, untilNewline, hself]

end Text

end StyleServer
