/-
  The comments of a value, read byte by byte.

  The search steps from byte to byte and slices the value only to look for the end of a comment.
  In a string, a backslash makes it pass two bytes.

  * `commentStep`: one step.  `commentStep_advances`: it leads further, so that the search ends
    on every value and from every offset (`commentSpansFrom`).
  * `commentSpansFrom_part`, `commentSpansFrom_eq`: from between two characters, the search goes
    on behind the next part of the value, and finds the comments among the parts.
  * `CommentsInside`, `commentSpansIn_inside`: the comments lie in the value one behind the
    other, between characters.
  * `stripComments_eq`: what stands between them can be sliced.
-/
import StyleServer.Proofs.Bytewise.Bytes
import StyleServer.Proofs.Sheet.Plain
import StyleServer.Proofs.Sheet.ValueComments

namespace StyleServer

open ValuePart (commentSpans)

/-! ## The search -/

/-- Where the inside of a string ends that is read from an offset on: at a quote, at a line feed
    or past the end. -/
def quoteStop (value : Text) (quote : UInt8) (pos : Nat) : Checked Nat :=
  if pos < value.byteLength then do
    let b ← Checked.item value.bytes pos
    if b = quote ∨ b = '\n'.toUInt8 then return pos
    else if b = '\\'.toUInt8 then quoteStop value quote (pos + 2)
    else quoteStop value quote (pos + 1)
  else .ok pos
termination_by value.byteLength - pos

/-- What a step of the search finds, where it leads, and whether a line begins there. -/
structure CommentStep where
  found : Option Span
  pos : Nat
  lineStart : Bool

/-- One step of the search. -/
def commentStep (value : Text) (pos : Nat) (lineStart : Bool) : Checked CommentStep := do
  let b ← Checked.item value.bytes pos
  if b = '/'.toUInt8 ∧ value.byte? (pos + 1) = some '*'.toUInt8 then
    let rest ← Checked.sliceFrom value (pos + 2)
    let stop := ((rest.find? ['*', '/']).map fun i => pos + 2 + i + 2).getD value.byteLength
    return ⟨some ⟨pos, stop⟩, stop, lineStart⟩
  else if b = '/'.toUInt8 ∧ lineStart = true ∧ value.byte? (pos + 1) = some '/'.toUInt8 then
    let rest ← Checked.sliceFrom value pos
    let stop := ((rest.find? ['\n']).map fun i => pos + i).getD value.byteLength
    return ⟨some ⟨pos, stop⟩, stop, lineStart⟩
  else if isQuoteByte b then
    let stop ← quoteStop value b (pos + 1)
    return ⟨none, min (stop + 1) value.byteLength, false⟩
  else if b = '\n'.toUInt8 then return ⟨none, pos + 1, true⟩
  else if isBlankByte b then return ⟨none, pos + 1, lineStart⟩
  else return ⟨none, pos + 1, false⟩

theorem le_quoteStop {value : Text} {quote : UInt8} {pos stop : Nat}
    (h : quoteStop value quote pos = .ok stop) : pos ≤ stop := by
  fun_induction quoteStop value quote pos with
  | case1 pos hlt ih₂ ih₁ =>
    obtain ⟨b, -, h⟩ := Checked.bind_eq_ok.1 h
    split at h
    · cases h; exact Nat.le_refl _
    · split at h
      · exact Nat.le_trans (Nat.le_add_right _ _) (ih₂ h)
      · exact Nat.le_trans (Nat.le_add_right _ _) (ih₁ h)
  | case2 => cases h; exact Nat.le_refl _

/-- The item of an index is the byte there. -/
theorem item_bytes_eq_ok {value : Text} {pos : Nat} {b : UInt8} :
    Checked.item value.bytes pos = .ok b ↔ value.byte? pos = some b := by
  unfold Checked.item Text.byte?
  split
  · next h => simp [h]
  · next h => simp [h]

/-- A line feed is not found where a slash stands. -/
theorem find?_newline_pos {value rest : Text} {pos i : Nat}
    (hb : value.byte? pos = some '/'.toUInt8) (hrest : Checked.sliceFrom value pos = .ok rest)
    (hi : rest.find? ['\n'] = some i) : 0 < i := by
  obtain ⟨a, rfl, rfl⟩ := Checked.sliceFrom_eq_ok hrest
  have hhead := (Text.byte?_eq_iff a rest (by decide)).1 hb
  obtain ⟨more, rfl⟩ := List.head?_eq_some_iff.1 hhead
  have hnot : (['\n'].isPrefixOf ('/' :: more)) = false := rfl
  rw [Text.find?, hnot] at hi
  obtain ⟨j, -, rfl⟩ := Option.map_eq_some_iff.1 hi
  exact Nat.lt_of_lt_of_le (Char.utf8Size_pos '/') (Nat.le_add_right _ _)

/-- **Each step leads further.** -/
theorem commentStep_advances {value : Text} {pos : Nat} {lineStart : Bool} {next : CommentStep}
    (hlt : pos < value.byteLength) (h : commentStep value pos lineStart = .ok next) :
    pos < next.pos := by
  obtain ⟨b, hb, h⟩ := Checked.bind_eq_ok.1 h
  rw [item_bytes_eq_ok] at hb
  split at h
  · obtain ⟨rest, -, h⟩ := Checked.bind_eq_ok.1 h
    cases h
    show pos < ((rest.find? ['*', '/']).map fun i => pos + 2 + i + 2).getD value.byteLength
    cases rest.find? ['*', '/'] with
    | none => exact hlt
    | some i => exact (by omega : pos < pos + 2 + i + 2)
  split at h
  · next hslash =>
    obtain ⟨rest, hrest, h⟩ := Checked.bind_eq_ok.1 h
    cases h
    show pos < ((rest.find? ['\n']).map fun i => pos + i).getD value.byteLength
    cases hf : rest.find? ['\n'] with
    | none => exact hlt
    | some i =>
      rw [hslash.1] at hb
      exact Nat.lt_add_of_pos_right (find?_newline_pos hb hrest hf)
  split at h
  · obtain ⟨stop, hstop, h⟩ := Checked.bind_eq_ok.1 h
    cases h
    have hle := le_quoteStop hstop
    show pos < min (stop + 1) value.byteLength
    omega
  split at h
  · cases h; exact Nat.lt_succ_self _
  split at h
  · cases h; exact Nat.lt_succ_self _
  · cases h; exact Nat.lt_succ_self _

/-- The comments from an offset on. -/
def commentSpansFrom (value : Text) (pos : Nat) (lineStart : Bool) : Checked (List Span) :=
  if _hlt : pos < value.byteLength then
    match _h : commentStep value pos lineStart with
    | .error fault => .error fault
    | .ok next => do
      let rest ← commentSpansFrom value next.pos next.lineStart
      return next.found.toList ++ rest
  else .ok []
termination_by value.byteLength - pos
decreasing_by
  have := commentStep_advances _hlt _h
  omega

/-- The comments of a value, by their spans in it. -/
def commentSpansIn (value : Text) : Checked (List Span) := commentSpansFrom value 0 false

/-! ## The search follows the parts -/

theorem quoteStop_end {value : Text} {pos : Nat} (h : value.byteLength ≤ pos) (quote : UInt8) :
    quoteStop value quote pos = .ok pos := by
  rw [quoteStop, if_neg (Nat.not_lt.2 h)]

theorem quoteStop_byte {value : Text} {pos : Nat} {b : UInt8} (h : value.byte? pos = some b)
    (quote : UInt8) :
    quoteStop value quote pos =
      if b = quote ∨ b = '\n'.toUInt8 then .ok pos
      else if b = '\\'.toUInt8 then quoteStop value quote (pos + 2)
      else quoteStop value quote (pos + 1) := by
  rw [quoteStop, if_pos (Text.lt_of_byte? h), item_bytes_eq_ok.2 h]
  rfl

theorem quoteStop_inside (a : Text) (c : Char) (cs : Text) {quote : Char}
    (hq : quote.toNat < 0x80) {i : Nat} (hi : 0 < i) (hle : i ≤ c.utf8Size) :
    quoteStop (a ++ c :: cs) quote.toUInt8 (a.byteLength + i) =
      quoteStop (a ++ c :: cs) quote.toUInt8 (a.byteLength + c.utf8Size) := by
  refine walk (fun j hlo hhi => ?_) (Nat.add_le_add_left hle _)
  obtain ⟨k, rfl⟩ := Nat.exists_eq_add_of_le (Nat.le_trans (Nat.le_add_right _ i) hlo)
  obtain ⟨b, hb, hhigh⟩ := Text.byte?_inside a cs (c := c) (i := k) (by omega) (by omega)
  rw [quoteStop_byte hb, if_neg, if_neg (ne_of_high hhigh (by decide))]
  rintro (h | h)
  · exact ne_of_high hhigh hq h
  · exact ne_of_high hhigh (by decide) h

/-- **A string of a value ends at the same place,** wherever a backslash makes the search land. -/
theorem quoteStop_eq {quote : Char} (hq : isQuote quote = true) (a cs : Text) :
    ∃ stop, quoteStop (a ++ cs) quote.toUInt8 a.byteLength = .ok stop ∧
      min (stop + 1) (a ++ cs).byteLength =
        a.byteLength + (throughQuoteOrNewline quote cs).1.byteLength := by
  have hascii := ascii_of_isQuote hq
  have hbackslash : ¬ (leadByte '\\' = quote.toUInt8 ∨ leadByte '\\' = '\n'.toUInt8) := by
    rintro (h | h)
    · obtain rfl := (leadByte_eq_iff hascii).1 h
      cases hq
    · exact absurd h (by decide)
  have hone : '\\'.utf8Size = 1 := by decide
  induction cs using escapes_induction generalizing a with
  | nil =>
    refine ⟨a.byteLength, quoteStop_end (by simp) _, ?_⟩
    rw [List.append_nil, Nat.min_eq_right (Nat.le_succ _)]
    rfl
  | lone =>
    have hsize : Text.byteLength (a ++ ['\\']) = a.byteLength + 1 := by simp [hone]
    refine ⟨a.byteLength + 2, ?_, ?_⟩
    · rw [quoteStop_byte (Text.byte?_boundary a _ _), if_neg hbackslash,
        if_pos (leadByte_ascii (by decide)), quoteStop_end (by rw [hsize]; exact Nat.le_succ _)]
    · rw [hsize, Nat.min_eq_right (by omega)]
      rfl
  | escape c cs ih =>
    have htext : a ++ '\\' :: c :: cs = (a ++ ['\\']) ++ c :: cs := by simp
    have hjump : a.byteLength + 2 = Text.byteLength (a ++ ['\\']) + 1 := by simp [hone]
    have hbehind : Text.byteLength (a ++ ['\\']) + c.utf8Size =
        Text.byteLength (a ++ ['\\', c]) := by
      simp [Nat.add_assoc]
    obtain ⟨stop, hstop, hmin⟩ := ih (a ++ ['\\', c])
    rw [List.append_assoc] at hstop hmin
    refine ⟨stop, ?_, ?_⟩
    · rw [quoteStop_byte (Text.byte?_boundary a _ _), if_neg hbackslash,
        if_pos (leadByte_ascii (by decide)), hjump, htext,
        quoteStop_inside _ c cs hascii Nat.one_pos c.utf8Size_pos, hbehind, ← htext]
      exact hstop
    · refine hmin.trans ?_
      simp only [throughQuoteOrNewline, Text.byteLength_append, Text.byteLength_cons,
        Text.byteLength_nil]
      omega
  | other c cs hc ih =>
    rw [throughQuoteOrNewline_cons hc, quoteStop_byte (Text.byte?_boundary a _ _)]
    simp only [leadByte_eq_iff (show '\\'.toNat < 0x80 by decide),
      leadByte_eq_iff (show '\n'.toNat < 0x80 by decide), leadByte_eq_iff hascii, if_neg hc]
    by_cases hend : c = quote ∨ c = '\n'
    · have hsize : c.utf8Size = 1 := by
        rcases hend with rfl | rfl
        · exact Text.utf8Size_of_ascii hascii
        · decide
      refine ⟨a.byteLength, if_pos hend, ?_⟩
      rw [if_pos hend, Text.byteLength_append]
      simp only [Text.byteLength_cons, Text.byteLength_nil, hsize]
      omega
    · have hbehind : Text.byteLength (a ++ [c]) = a.byteLength + c.utf8Size := by simp
      obtain ⟨stop, hstop, hmin⟩ := ih (a ++ [c])
      rw [List.append_assoc, hbehind] at hstop hmin
      refine ⟨stop, ?_, ?_⟩
      · rw [if_neg hend, quoteStop_inside a c cs hascii Nat.one_pos c.utf8Size_pos]
        exact hstop
      · rw [if_neg hend]
        exact hmin.trans (Nat.add_assoc _ _ _)

theorem commentStep_byte {value : Text} {pos : Nat} {b : UInt8} (h : value.byte? pos = some b)
    (lineStart : Bool) :
    commentStep value pos lineStart =
      if b = '/'.toUInt8 ∧ value.byte? (pos + 1) = some '*'.toUInt8 then do
        let rest ← Checked.sliceFrom value (pos + 2)
        let stop := ((rest.find? ['*', '/']).map fun i => pos + 2 + i + 2).getD value.byteLength
        return ⟨some ⟨pos, stop⟩, stop, lineStart⟩
      else if b = '/'.toUInt8 ∧ lineStart = true ∧ value.byte? (pos + 1) = some '/'.toUInt8 then do
        let rest ← Checked.sliceFrom value pos
        let stop := ((rest.find? ['\n']).map fun i => pos + i).getD value.byteLength
        return ⟨some ⟨pos, stop⟩, stop, lineStart⟩
      else if isQuoteByte b then do
        let stop ← quoteStop value b (pos + 1)
        return ⟨none, min (stop + 1) value.byteLength, false⟩
      else if b = '\n'.toUInt8 then .ok ⟨none, pos + 1, true⟩
      else if isBlankByte b then .ok ⟨none, pos + 1, lineStart⟩
      else .ok ⟨none, pos + 1, false⟩ := by
  rw [commentStep, item_bytes_eq_ok.2 h]
  rfl

theorem commentSpansFrom_end {value : Text} {pos : Nat} (h : value.byteLength ≤ pos)
    (lineStart : Bool) : commentSpansFrom value pos lineStart = .ok [] := by
  rw [commentSpansFrom, dif_neg (Nat.not_lt.2 h)]

theorem commentSpansFrom_step {value : Text} {pos : Nat} {lineStart : Bool} {next : CommentStep}
    (hlt : pos < value.byteLength) (h : commentStep value pos lineStart = .ok next) :
    commentSpansFrom value pos lineStart = (do
      let rest ← commentSpansFrom value next.pos next.lineStart
      return next.found.toList ++ rest) := by
  rw [commentSpansFrom, dif_pos hlt]
  split
  · next h' => rw [h] at h'; cases h'
  · next h' =>
    cases h.symm.trans h'
    rfl

/-- A step that finds nothing. -/
theorem commentSpansFrom_pass {value : Text} {pos pos' : Nat} {lineStart lineStart' : Bool}
    (hlt : pos < value.byteLength)
    (h : commentStep value pos lineStart = .ok ⟨none, pos', lineStart'⟩) :
    commentSpansFrom value pos lineStart = commentSpansFrom value pos' lineStart' := by
  rw [commentSpansFrom_step hlt h]
  exact bind_pure _

/-- A step that finds a comment. -/
theorem commentSpansFrom_found {value : Text} {pos pos' : Nat} {lineStart lineStart' : Bool}
    {span : Span} {spans : List Span} (hlt : pos < value.byteLength)
    (h : commentStep value pos lineStart = .ok ⟨some span, pos', lineStart'⟩)
    (hrest : commentSpansFrom value pos' lineStart' = .ok spans) :
    commentSpansFrom value pos lineStart = .ok (span :: spans) := by
  rw [commentSpansFrom_step hlt h]
  dsimp only
  rw [hrest]
  rfl

/-- The later bytes of a character are passed over. -/
theorem commentSpansFrom_inside (a : Text) (c : Char) (cs : Text) :
    commentSpansFrom (a ++ c :: cs) (a.byteLength + 1) false =
      commentSpansFrom (a ++ c :: cs) (a.byteLength + c.utf8Size) false := by
  refine walk (f := fun i => commentSpansFrom (a ++ c :: cs) i false) (fun j hlo hhi => ?_)
    (Nat.add_le_add_left c.utf8Size_pos _)
  obtain ⟨k, rfl⟩ := Nat.exists_eq_add_of_le (Nat.le_trans (Nat.le_add_right _ 1) hlo)
  obtain ⟨b, hb, hhigh⟩ := Text.byte?_inside a cs (c := c) (i := k) (by omega) (by omega)
  have hends := endsWordByte_of_high hhigh
  simp only [endsWordByte, Bool.or_eq_false_iff] at hends
  refine commentSpansFrom_pass (Text.lt_of_byte? hb) ?_
  rw [commentStep_byte hb, if_neg fun h => ne_of_high hhigh (by decide) h.1,
    if_neg fun h => ne_of_high hhigh (by decide) h.1, hends.1.2, if_neg (by decide),
    if_neg (ne_of_high hhigh (by decide)), hends.2, if_neg (by decide)]

/-! One step, by what stands at the offset. -/

theorem leadByte_ne_slash {c : Char} (h : c ≠ '/') : leadByte c ≠ '/'.toUInt8 :=
  fun hlead => h ((leadByte_eq_iff (by decide)).1 hlead)

/-- The search lands in a string, but comes out of it where it ends. -/
theorem commentStep_quote {c : Char} (hq : isQuote c = true) (a cs : Text) (lineStart : Bool) :
    commentStep (a ++ c :: cs) a.byteLength lineStart =
      .ok ⟨none, (a ++ c :: (throughQuoteOrNewline c cs).1).byteLength, false⟩ := by
  have hascii := ascii_of_isQuote hq
  have hslash : leadByte c ≠ '/'.toUInt8 := by
    refine leadByte_ne_slash ?_
    rintro rfl
    cases hq
  have htext : a ++ c :: cs = (a ++ [c]) ++ cs := by simp
  have hbehind : a.byteLength + 1 = Text.byteLength (a ++ [c]) := by
    simp [Text.utf8Size_of_ascii hascii]
  have hsize : (a ++ c :: (throughQuoteOrNewline c cs).1).byteLength =
      a.byteLength + 1 + (throughQuoteOrNewline c cs).1.byteLength := by
    rw [hbehind, ← Text.byteLength_append, List.append_assoc, List.singleton_append]
  obtain ⟨stop, hstop, hmin⟩ := quoteStop_eq hq (a ++ [c]) cs
  rw [← htext, ← hbehind] at hstop hmin
  rw [commentStep_byte (Text.byte?_boundary a c cs), if_neg fun h => hslash h.1,
    if_neg fun h => hslash h.1, isQuoteByte_leadByte, if_pos hq, leadByte_ascii hascii, hstop,
    hsize, ← hmin]
  rfl

/-- A line feed begins a line, and another blank does not end the blanks at its front. -/
theorem commentStep_blank {c : Char} (hb : isAsciiBlank c = true) (a cs : Text)
    (lineStart : Bool) :
    commentStep (a ++ c :: cs) a.byteLength lineStart =
      .ok ⟨none, (a ++ [c]).byteLength, lineStart || c == '\n'⟩ := by
  have hslash : leadByte c ≠ '/'.toUInt8 := by
    refine leadByte_ne_slash ?_
    rintro rfl
    cases hb
  have hbehind : (a ++ [c]).byteLength = a.byteLength + 1 := by
    simp [Text.utf8Size_of_ascii (ascii_of_isAsciiBlank hb)]
  rw [commentStep_byte (Text.byte?_boundary a c cs), if_neg fun h => hslash h.1,
    if_neg fun h => hslash h.1, isQuoteByte_leadByte, isQuote_of_isAsciiBlank hb,
    if_neg Bool.false_ne_true, isBlankByte_leadByte, hbehind]
  by_cases hn : c = '\n'
  · rw [if_pos ((leadByte_eq_iff (by decide)).2 hn), hn]
    simp
  · rw [if_neg fun h => hn ((leadByte_eq_iff (by decide)).1 h), if_pos hb,
      beq_eq_false_iff_ne.2 hn, Bool.or_false]

theorem commentStep_block (a more : Text) (lineStart : Bool) :
    commentStep (a ++ '/' :: '*' :: more) a.byteLength lineStart =
      .ok ⟨some ⟨a.byteLength, (a ++ '/' :: '*' :: (throughCommentEnd more).1).byteLength⟩,
        (a ++ '/' :: '*' :: (throughCommentEnd more).1).byteLength, lineStart⟩ := by
  have htext : ∀ b : Text, a ++ '/' :: '*' :: b = (a ++ ['/', '*']) ++ b := by simp
  have hbehind : a.byteLength + 2 = Text.byteLength (a ++ ['/', '*']) := by
    rw [Text.byteLength_append]
    rfl
  have hslice : Checked.sliceFrom (a ++ '/' :: '*' :: more) (a.byteLength + 2) = .ok more := by
    rw [hbehind, htext]
    exact Checked.sliceFrom_append _ _
  have hstop : ((Text.find? more ['*', '/']).map fun i => a.byteLength + 2 + i + 2).getD
      (a ++ '/' :: '*' :: more).byteLength =
        (a ++ '/' :: '*' :: (throughCommentEnd more).1).byteLength := by
    have hsize : ∀ b : Text, (a ++ '/' :: '*' :: b).byteLength =
        a.byteLength + 2 + b.byteLength := by
      intro b
      rw [htext, Text.byteLength_append, hbehind]
    rw [hsize, hsize, ← Text.find?_commentEnd]
    cases Text.find? more ['*', '/'] with
    | none => rfl
    | some i => exact Nat.add_assoc _ _ _
  have hstar := (Text.byte?_next_iff a (c := '/') (by decide) ('*' :: more) (by decide)).2 rfl
  rw [commentStep_byte (Text.byte?_boundary a _ _), if_pos ⟨leadByte_ascii (by decide), hstar⟩,
    hslice, Checked.ok_bind, hstop]
  rfl

theorem commentStep_line (a more : Text) :
    commentStep (a ++ '/' :: '/' :: more) a.byteLength true =
      .ok ⟨some ⟨a.byteLength, (a ++ '/' :: '/' :: (untilNewline more).1).byteLength⟩,
        (a ++ '/' :: '/' :: (untilNewline more).1).byteLength, true⟩ := by
  have hstop : ((Text.find? ('/' :: '/' :: more) ['\n']).map fun i => a.byteLength + i).getD
      (a ++ '/' :: '/' :: more).byteLength =
        (a ++ '/' :: '/' :: (untilNewline more).1).byteLength := by
    have hfind := Text.find?_newline ('/' :: '/' :: more)
    have huntil : (untilNewline ('/' :: '/' :: more)).1 =
        '/' :: '/' :: (untilNewline more).1 := rfl
    rw [huntil] at hfind
    rw [Text.byteLength_append, Text.byteLength_append, ← hfind]
    cases Text.find? ('/' :: '/' :: more) ['\n'] with
    | none => rfl
    | some i => rfl
  have hnext : ∀ {d : Char}, d.toNat < 0x80 →
      ((a ++ '/' :: '/' :: more).byte? (a.byteLength + 1) = some d.toUInt8 ↔ '/' = d) := by
    intro d hd
    rw [Text.byte?_next_iff a (by decide) _ hd, List.head?_cons, Option.some.injEq]
  rw [commentStep_byte (Text.byte?_boundary a _ _), if_neg, if_pos, Checked.sliceFrom_append,
    Checked.ok_bind, hstop]
  · rfl
  · exact ⟨leadByte_ascii (by decide), rfl, (hnext (by decide)).2 rfl⟩
  · rintro ⟨-, hstar⟩
    exact absurd ((hnext (by decide)).1 hstar) (by decide)

/-- The first byte of any other character leads into it. -/
theorem commentStep_other {c : Char} {cs : Text} {lineStart : Bool}
    (h : PassedOver lineStart c cs) (a : Text) :
    commentStep (a ++ c :: cs) a.byteLength lineStart = .ok ⟨none, a.byteLength + 1, false⟩ := by
  have hn : c ≠ '\n' := by
    rintro rfl
    cases h.not_blank
  rw [commentStep_byte (Text.byte?_boundary a c cs), if_neg, if_neg, isQuoteByte_leadByte,
    h.not_quote, if_neg Bool.false_ne_true,
    if_neg fun hlead => hn ((leadByte_eq_iff (by decide)).1 hlead), isBlankByte_leadByte,
    h.not_blank, if_neg Bool.false_ne_true]
  · rintro ⟨hlead, hl, hslash⟩
    obtain rfl := (leadByte_eq_iff (by decide)).1 hlead
    exact h.not_line rfl hl ((Text.byte?_next_iff a (by decide) cs (by decide)).1 hslash)
  · rintro ⟨hlead, hstar⟩
    obtain rfl := (leadByte_eq_iff (by decide)).1 hlead
    exact h.not_block rfl ((Text.byte?_next_iff a (by decide) cs (by decide)).1 hstar)

/-- **The search goes on behind the next part,** which it has found if it is a comment. -/
theorem commentSpansFrom_part {a : Text} {c : Char} {cs rest : Text} {lineStart next : Bool}
    {part : ValuePart} {spans : List Span}
    (hpart : nextValuePart lineStart c cs = (part, next, rest))
    (h : commentSpansFrom (a ++ c :: cs) (a ++ part.chars).byteLength next = .ok spans) :
    commentSpansFrom (a ++ c :: cs) a.byteLength lineStart =
      .ok (if part.isComment then ⟨a.byteLength, (a ++ part.chars).byteLength⟩ :: spans
        else spans) := by
  have hlt : a.byteLength < (a ++ c :: cs).byteLength :=
    Text.lt_of_byte? (Text.byte?_boundary a c cs)
  rcases nextValuePart_cases lineStart c cs with
    hq | hb | ⟨rfl, more, rfl⟩ | ⟨rfl, rfl, more, rfl⟩ | hpass
  · cases (nextValuePart_quote hq lineStart cs).symm.trans hpart
    rw [commentSpansFrom_pass hlt (commentStep_quote hq a cs lineStart)]
    exact h
  · cases (nextValuePart_blank hb lineStart cs).symm.trans hpart
    rw [commentSpansFrom_pass hlt (commentStep_blank hb a cs lineStart)]
    exact h
  · cases (nextValuePart_block lineStart more).symm.trans hpart
    rw [commentSpansFrom_found hlt (commentStep_block a more lineStart) h]
    rfl
  · cases (nextValuePart_line more).symm.trans hpart
    rw [commentSpansFrom_found hlt (commentStep_line a more) h]
    rfl
  · cases hpass.nextValuePart_eq.symm.trans hpart
    have hsize : (a ++ [c]).byteLength = a.byteLength + c.utf8Size := by simp
    rw [ValuePart.chars, hsize] at h
    rw [commentSpansFrom_pass hlt (commentStep_other hpass a), commentSpansFrom_inside, h]
    rfl

/-- **The comments from between two characters on** are those among the parts that follow. -/
theorem commentSpansFrom_eq (a cs : Text) (lineStart : Bool) :
    commentSpansFrom (a ++ cs) a.byteLength lineStart =
      .ok (commentSpans a.byteLength (valuePartsFrom lineStart cs)) := by
  fun_induction valuePartsFrom lineStart cs generalizing a with
  | case1 => exact commentSpansFrom_end (by simp) _
  | case2 lineStart c cs ih =>
    have hsplit := nextValuePart_append lineStart c cs
    have hpart : nextValuePart lineStart c cs = ((nextValuePart lineStart c cs).1,
      (nextValuePart lineStart c cs).2.1, (nextValuePart lineStart c cs).2.2) := rfl
    have ih := ih (a ++ (nextValuePart lineStart c cs).1.chars)
    rw [List.append_assoc, hsplit] at ih
    rw [commentSpansFrom_part hpart ih, Text.byteLength_append]
    rfl

/-- The comments of a value are found, without a slice or an index that fails. -/
theorem commentSpansIn_eq (value : Text) :
    commentSpansIn value = .ok (commentSpans 0 (valueParts value)) :=
  commentSpansFrom_eq [] value false

/-! ## Where the comments lie -/

/-- Spans lie in a text one behind the other, between characters. -/
structure CommentsInside (value : Text) (spans : List Span) : Prop where
  nonempty : ∀ s ∈ spans, s.start < s.stop
  inside : ∀ s ∈ spans, s.stop ≤ value.byteLength
  boundaries : ∀ s ∈ spans, value.isBoundary s.start = true ∧ value.isBoundary s.stop = true
  increasing : spans.Pairwise fun s t => s.stop ≤ t.start

theorem commentSpans_inside (a cs : Text) (lineStart : Bool) :
    CommentsInside (a ++ cs) (commentSpans a.byteLength (valuePartsFrom lineStart cs)) := by
  fun_induction valuePartsFrom lineStart cs generalizing a with
  | case1 => exact ⟨by simp [commentSpans], by simp [commentSpans], by simp [commentSpans], .nil⟩
  | case2 lineStart c cs ih =>
    have hsplit := nextValuePart_append lineStart c cs
    have hne := nextValuePart_chars_ne_nil lineStart c cs
    generalize nextValuePart lineStart c cs = next at hsplit hne ih
    obtain ⟨part, lineStart', rest⟩ := next
    have ih := ih (a ++ part.chars)
    rw [List.append_assoc, hsplit, Text.byteLength_append] at ih
    cases part with
    | kept chars => exact ih
    | comment chars =>
      have hpos : 0 < Text.byteLength chars := by
        obtain ⟨d, ds, rfl⟩ := List.exists_cons_of_ne_nil hne
        exact Nat.lt_of_lt_of_le d.utf8Size_pos (Nat.le_add_right _ _)
      have htext : a ++ c :: cs = a ++ (chars ++ rest) := by rw [← hsplit]; rfl
      rw [commentSpans_comment]
      refine ⟨?_, ?_, ?_, List.pairwise_cons.2 ⟨?_, ih.increasing⟩⟩
      · refine List.forall_mem_cons.2 ⟨Nat.lt_add_of_pos_right hpos, ih.nonempty⟩
      · refine List.forall_mem_cons.2 ⟨?_, ih.inside⟩
        rw [htext, Text.byteLength_append, Text.byteLength_append]
        exact Nat.add_le_add_left (Nat.le_add_right _ _) _
      · refine List.forall_mem_cons.2 ⟨⟨Text.isBoundary_byteLength _ _, ?_⟩, ih.boundaries⟩
        refine Text.isBoundary_iff.2 ⟨a ++ chars, rest, ?_, Text.byteLength_append _ _⟩
        rw [htext, List.append_assoc]
      · intro s hs
        exact le_start_of_mem_commentSpans hs

/-- **The comments of a value are found,** and lie in it one behind the other, between
    characters. -/
theorem commentSpansIn_inside (value : Text) :
    ∃ spans, commentSpansIn value = .ok spans ∧ CommentsInside value spans :=
  ⟨_, commentSpansIn_eq value, commentSpans_inside [] value false⟩

/-! ## The value without them -/

/-- What stands between the comments of a value, from an offset on. -/
def keptFrom (value : Text) (last : Nat) : List Span → Checked Text
  | [] => Checked.sliceFrom value last
  | comment :: comments => do
    let before ← Checked.slice value ⟨last, comment.start⟩
    let behind ← keptFrom value comment.stop comments
    return before ++ behind

/-- A value without its comments and the lines that they leave blank. -/
def stripComments (value : Text) (comments : List Span) : Checked Text :=
  if comments.isEmpty then .ok value
  else do
    let kept ← keptFrom value 0 comments
    let lines := (kept.splitOn '\n').filter fun line => !line.all isBlank
    return Text.trim (['\n'].intercalate (lines.map Text.trimEnd))

theorem keptFrom_eq (a kept : Text) (parts : List ValuePart) :
    keptFrom (a ++ (kept ++ parts.flatMap ValuePart.chars)) a.byteLength
        (commentSpans (a ++ kept).byteLength parts) =
      .ok (kept ++ parts.flatMap ValuePart.keptChars) := by
  induction parts generalizing a kept with
  | nil =>
    rw [List.flatMap_nil, List.flatMap_nil]
    exact Checked.sliceFrom_append _ _
  | cons part parts ih =>
    cases part with
    | kept chars =>
      have ih := ih a (kept ++ chars)
      rw [← List.append_assoc, Text.byteLength_append] at ih
      rw [commentSpans_kept]
      simpa [ValuePart.chars, ValuePart.keptChars, Nat.add_assoc] using ih
    | comment chars =>
      have ih := ih (a ++ kept ++ chars) []
      rw [List.append_nil] at ih
      have htext : a ++ (kept ++ (ValuePart.comment chars :: parts).flatMap ValuePart.chars) =
          a ++ kept ++ chars ++ ([] ++ parts.flatMap ValuePart.chars) := by
        simp [ValuePart.chars]
      have hslice : Checked.slice
          (a ++ (kept ++ (ValuePart.comment chars :: parts).flatMap ValuePart.chars))
          ⟨a.byteLength, (a ++ kept).byteLength⟩ = .ok kept := by
        rw [Text.byteLength_append]
        exact Checked.slice_append _ _ _
      rw [commentSpans_comment, keptFrom, hslice, Checked.ok_bind, htext]
      rw [Text.byteLength_append] at ih
      dsimp only
      rw [ih]
      rfl

theorem stripComments_eq (value : Text) :
    stripComments value (commentSpans 0 (valueParts value)) = .ok (withoutComments value) := by
  have hkept := keptFrom_eq [] [] (valueParts value)
  have hvalue : (valueParts value).flatMap ValuePart.chars = value :=
    flatMap_chars_valuePartsFrom false value
  rw [List.nil_append, List.nil_append, List.nil_append, hvalue] at hkept
  rw [stripComments, withoutComments, any_isComment 0]
  cases hempty : (commentSpans 0 (valueParts value)).isEmpty with
  | true => rfl
  | false =>
    rw [if_neg (by decide)]
    show (keptFrom value 0 _ >>= _) = _
    rw [show keptFrom value 0 (commentSpans 0 (valueParts value)) = _ from hkept]
    rfl

end StyleServer
