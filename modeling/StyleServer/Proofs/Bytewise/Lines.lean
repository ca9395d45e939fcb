/-
  Lines and positions, looked up in a table of line starts.

  * `LineIndex`: a text with the offsets where its lines begin, and what is looked up in it.
  * `starts_split`: the starts up to a line, the line's own, and those behind it.
  * `LineIndex.lineOf_eq`, `LineIndex.position_eq`, `LineIndex.lineSpan?_eq`: no slice, index or
    difference fails, and what is looked up is the line, the position and the span.
-/
import StyleServer.Proofs.Bytewise.Bytes
import StyleServer.Proofs.Text.Positions

namespace StyleServer

/-! ## The table -/

/-- The offsets behind the line feeds among bytes that begin at an offset. -/
def feedsFrom (offset : Nat) : List UInt8 → List Nat
  | [] => []
  | b :: bs =>
    if b = '\n'.toUInt8 then (offset + 1) :: feedsFrom (offset + 1) bs
    else feedsFrom (offset + 1) bs

/-- A text with the offsets where its lines begin. -/
structure LineIndex where
  text : Text
  starts : List Nat

/-- The index of a number among increasing ones, or else the index where it would stand.  The
    table is such a list (`starts_increasing`). -/
def searchSorted (items : List Nat) (x : Nat) : Nat ⊕ Nat :=
  let i := (items.takeWhile (· < x)).length
  if items[i]? = some x then .inl i else .inr i

/-- The boundary at or below an offset. -/
def floorBoundary (text : Text) : Nat → Checked Nat
  | 0 => if text.isBoundary 0 then .ok 0 else .error (.difference 0 1)
  | n + 1 => if text.isBoundary (n + 1) then .ok (n + 1) else floorBoundary text n

namespace LineIndex

/-- The table of a text. -/
def of (text : Text) : LineIndex := ⟨text, 0 :: feedsFrom 0 text.bytes⟩

/-- The end of a line before its line feed. -/
def beforeFeed (index : LineIndex) (line : Nat) : Checked Nat :=
  match index.starts[line + 1]? with
  | some next => Checked.minus next 1
  | none => .ok index.text.byteLength

/-- The end of a line that begins and ends at offsets, before its carriage return. -/
def beforeReturn (index : LineIndex) (start stop : Nat) : Checked Nat :=
  if start < stop then do
    let last ← Checked.minus stop 1
    let b ← Checked.item index.text.bytes last
    return if b = '\r'.toUInt8 then last else stop
  else .ok stop

/-- The span of a line without its terminator. -/
def lineSpan? (index : LineIndex) (line : Nat) : Checked (Option Span) :=
  match index.starts[line]? with
  | none => .ok none
  | some start => do
    let stop ← index.beforeFeed line
    let stop ← index.beforeReturn start stop
    return some ⟨start, stop⟩

/-- The index of the line that holds an offset. -/
def lineOf (index : LineIndex) (offset : Nat) : Checked Nat :=
  match searchSorted index.starts offset with
  | .inl line => .ok line
  | .inr next => Checked.minus next 1

/-- The position of an offset. -/
def position (index : LineIndex) (offset : Nat) : Checked Position := do
  let offset ← floorBoundary index.text (min offset index.text.byteLength)
  let line ← index.lineOf offset
  let start ← Checked.item index.starts line
  let chars ← Checked.slice index.text ⟨start, offset⟩
  return ⟨line, chars.unitLength⟩

/-- The range of a span. -/
def range (index : LineIndex) (span : Span) : Checked Range := do
  let start ← index.position span.start
  let stop ← index.position span.stop
  return ⟨start, stop⟩

/-- The range of a line, or the origin when there is no such line. -/
def lineRange (index : LineIndex) (line : Nat) : Checked Range := do
  match ← index.lineSpan? line with
  | some span => index.range span
  | none => return Range.origin

end LineIndex

/-! ## Line feeds among bytes -/

theorem feedsFrom_append (offset : Nat) (bs bs' : List UInt8) :
    feedsFrom offset (bs ++ bs') = feedsFrom offset bs ++ feedsFrom (offset + bs.length) bs' := by
  induction bs generalizing offset with
  | nil => rfl
  | cons b bs ih =>
    have hlength : offset + (b :: bs).length = offset + 1 + bs.length := by
      rw [List.length_cons]
      omega
    rw [List.cons_append, feedsFrom, feedsFrom, ih, hlength]
    split <;> rfl

theorem feedsFrom_bounds {offset i : Nat} {bs : List UInt8} (h : i ∈ feedsFrom offset bs) :
    offset < i ∧ i ≤ offset + bs.length := by
  induction bs generalizing offset with
  | nil => simp [feedsFrom] at h
  | cons b bs ih =>
    rw [List.length_cons]
    have htail : i ∈ feedsFrom (offset + 1) bs → offset < i ∧ i ≤ offset + (bs.length + 1) := by
      intro hi
      have := ih hi
      omega
    rw [feedsFrom] at h
    split at h
    · rcases List.mem_cons.1 h with rfl | h
      · omega
      · exact htail h
    · exact htail h

/-- The byte of an ASCII character stands for nothing else. -/
theorem Text.mem_of_mem_bytes {text : Text} {d : Char} (hd : d.toNat < 0x80)
    (h : d.toUInt8 ∈ text.bytes) : d ∈ text := by
  obtain ⟨c, hc, hmem⟩ := List.mem_flatMap.1 h
  rcases utf8EncodeChar_cases c with ⟨-, hbytes, -⟩ | ⟨-, hhigh⟩
  · rw [hbytes, List.mem_singleton] at hmem
    have hlead : leadByte c = d.toUInt8 := by rw [leadByte, hbytes, hmem]; rfl
    rwa [← (leadByte_eq_iff hd).1 hlead]
  · exact absurd rfl (ne_of_high (hhigh _ hmem) hd)

theorem feedsFrom_line {line : Text} (h : ∀ c ∈ line, c ≠ '\n') (offset : Nat) :
    feedsFrom offset line.bytes = [] := by
  have hbytes : ∀ b ∈ line.bytes, b ≠ '\n'.toUInt8 := by
    rintro b hb rfl
    exact h _ (Text.mem_of_mem_bytes (by decide) hb) rfl
  generalize line.bytes = bs at hbytes
  induction bs generalizing offset with
  | nil => rfl
  | cons b bs ih =>
    obtain ⟨hb, hbs⟩ := List.forall_mem_cons.1 hbytes
    rw [feedsFrom, if_neg hb, ih _ hbs]

theorem feedsFrom_feed (offset : Nat) (rest : Text) :
    feedsFrom offset (Text.bytes ('\n' :: rest)) =
      (offset + 1) :: feedsFrom (offset + 1) rest.bytes := rfl

theorem length_feedsFrom (offset : Nat) (text : Text) :
    (feedsFrom offset text.bytes).length = text.count '\n' := by
  induction text using Text.lines_induction generalizing offset with
  | last line h => rw [feedsFrom_line h, Text.count_newline_eq_zero h]; rfl
  | feed line rest h ih =>
    rw [Text.bytes_append, feedsFrom_append, feedsFrom_line h, List.nil_append, feedsFrom_feed,
      List.length_cons, ih, List.count_append, Text.count_newline_eq_zero h, List.count_cons_self]
    omega

/-- **The table at a line:** the starts of the lines before it, its own, and those behind it. -/
theorem starts_split {before : Text} (h : ∀ c ∈ before.getLast?, c = '\n') (rest : Text) :
    ∃ earlier, (LineIndex.of (before ++ rest)).starts =
        earlier ++ before.byteLength :: feedsFrom before.byteLength rest.bytes ∧
      earlier.length = before.count '\n' ∧ ∀ i ∈ earlier, i < before.byteLength := by
  have hstarts : (LineIndex.of (before ++ rest)).starts =
      0 :: feedsFrom 0 before.bytes ++ feedsFrom before.byteLength rest.bytes := by
    rw [LineIndex.of, Text.bytes_append, feedsFrom_append, Text.length_bytes, Nat.zero_add]
    rfl
  rcases List.eq_nil_or_concat before with rfl | ⟨init, c, rfl⟩
  · exact ⟨[], hstarts, rfl, by simp⟩
  · obtain rfl := h c (by simp)
    rw [List.concat_eq_append] at hstarts ⊢
    have hsize : Text.byteLength (init ++ ['\n']) = Text.byteLength init + 1 := by
      rw [Text.byteLength_append]
      rfl
    have hlast : feedsFrom 0 (Text.bytes (init ++ ['\n'])) =
        feedsFrom 0 (Text.bytes init) ++ [Text.byteLength (init ++ ['\n'])] := by
      rw [Text.bytes_append, feedsFrom_append, Text.length_bytes, Nat.zero_add, feedsFrom_feed,
        hsize]
      rfl
    refine ⟨0 :: feedsFrom 0 (Text.bytes init), ?_, ?_, ?_⟩
    · rw [hstarts, hlast]
      simp
    · rw [List.length_cons, length_feedsFrom, List.count_append]
      rfl
    · intro i hi
      rw [hsize]
      rcases List.mem_cons.1 hi with rfl | hi
      · omega
      · have := (feedsFrom_bounds hi).2
        rw [Text.length_bytes] at this
        omega

theorem feedsFrom_increasing (offset : Nat) (bs : List UInt8) :
    (feedsFrom offset bs).Pairwise (· < ·) := by
  induction bs generalizing offset with
  | nil => exact .nil
  | cons b bs ih =>
    rw [feedsFrom]
    split
    · exact .cons (fun i hi => (feedsFrom_bounds hi).1) (ih _)
    · exact ih _

/-- **The starts of lines increase.** -/
theorem starts_increasing (text : Text) : (LineIndex.of text).starts.Pairwise (· < ·) :=
  .cons (fun _ hi => (feedsFrom_bounds hi).1) (feedsFrom_increasing 0 _)

theorem getElem?_starts {before : Text} (h : ∀ c ∈ before.getLast?, c = '\n') (rest : Text) :
    (LineIndex.of (before ++ rest)).starts[before.count '\n']? = some before.byteLength := by
  obtain ⟨earlier, hstarts, hlength, -⟩ := starts_split h rest
  rw [hstarts, ← hlength]
  simp

/-! ## The line of an offset -/

/-- Where a number is searched: below it the smaller ones, at or above it the others. -/
theorem searchSorted_append {below above : List Nat} {x : Nat} (hbelow : ∀ i ∈ below, i < x)
    (habove : ∀ i ∈ above.head?, x ≤ i) :
    searchSorted (below ++ above) x =
      if above.head? = some x then .inl below.length else .inr below.length := by
  have htake : (below ++ above).takeWhile (· < x) = below := by
    rw [List.takeWhile_append_of_pos (by simpa using hbelow)]
    cases above with
    | nil => simp
    | cons i above =>
      have hi : ¬ i < x := Nat.not_lt.2 (habove i rfl)
      simp [hi]
  rw [searchSorted, htake, List.getElem?_append_right (Nat.le_refl _), Nat.sub_self,
    List.head?_eq_getElem?]

namespace LineIndex

/-- **The line of a boundary** counts the line feeds before it. -/
theorem lineOf_eq (a b : Text) : (of (a ++ b)).lineOf a.byteLength = .ok (a.count '\n') := by
  obtain ⟨line, before, after, u, h, rfl, hu, -⟩ := Text.exists_lineAt a b
  obtain ⟨earlier, hstarts, hlength, hearlier⟩ := starts_split h.begins (u ++ b)
  rw [Text.bytes_append, feedsFrom_append, feedsFrom_line hu, List.nil_append, Text.length_bytes,
    ← Text.byteLength_append, ← List.append_assoc] at hstarts
  have hlater : ∀ i ∈ feedsFrom (before ++ u).byteLength b.bytes, (before ++ u).byteLength < i :=
    fun i hi => (feedsFrom_bounds hi).1
  have hindex : (before ++ u).count '\n' = earlier.length := by
    rw [List.count_append, Text.count_newline_eq_zero hu, hlength, Nat.add_zero]
  rw [lineOf, hstarts, hindex]
  generalize feedsFrom (before ++ u).byteLength b.bytes = later at hlater
  by_cases hnil : u = []
  · -- The offset is where the line begins.
    subst hnil
    rw [List.append_nil] at hlater ⊢
    rw [searchSorted_append hearlier (by simp)]
    simp
  · have hlt : before.byteLength < (before ++ u).byteLength := by
      have hpos := Text.byteLength_pos hnil
      rw [Text.byteLength_append]
      omega
    have hbelow : ∀ i ∈ earlier ++ [before.byteLength], i < (before ++ u).byteLength := by
      intro i hi
      rcases List.mem_append.1 hi with hi | hi
      · exact Nat.lt_trans (hearlier i hi) hlt
      · rwa [List.mem_singleton.1 hi]
    have hhead : later.head? ≠ some (before ++ u).byteLength := by
      intro hsome
      exact Nat.lt_irrefl _ (hlater _ (List.mem_of_head? hsome))
    have happend : earlier ++ before.byteLength :: later =
        (earlier ++ [before.byteLength]) ++ later := by simp
    have habove : ∀ i ∈ later.head?, (before ++ u).byteLength ≤ i := by
      intro i hi
      exact Nat.le_of_lt (hlater i (List.mem_of_head? hi))
    rw [happend, searchSorted_append hbelow habove, if_neg hhead]
    simp

theorem lineOf_boundary {text : Text} {offset : Nat} (h : text.isBoundary offset = true) :
    (of text).lineOf offset = .ok (text.lineOf offset) := by
  obtain ⟨a, b, rfl, rfl⟩ := Text.isBoundary_iff.1 h
  rw [lineOf_eq, Text.lineOf_append]

/-! ## The position of an offset -/

/-- Going back from an offset ends at the boundary below it. -/
theorem floorBoundary_eq {text : Text} {offset boundary : Nat}
    (h : IsGreatest {o | text.isBoundary o = true ∧ o ≤ offset} boundary) :
    floorBoundary text offset = .ok boundary := by
  obtain ⟨⟨hboundary, hle⟩, hgreatest⟩ := h
  induction offset with
  | zero =>
    obtain rfl := Nat.le_zero.1 hle
    rw [floorBoundary, if_pos hboundary]
  | succ n ih =>
    rw [floorBoundary]
    split
    · next hn => rw [Nat.le_antisymm hle (hgreatest ⟨hn, Nat.le_refl _⟩)]
    · next hn =>
      have hne : boundary ≠ n + 1 := by
        rintro rfl
        exact hn hboundary
      refine ih ?_ (by omega)
      rintro o ⟨ho, hon⟩
      exact hgreatest ⟨ho, Nat.le_succ_of_le hon⟩

/-- **The position of an offset**, also of one inside a character or past the end. -/
theorem position_eq (text : Text) (offset : Nat) :
    (of text).position offset = .ok (text.position offset) := by
  have hclamp : text.position (min offset text.byteLength) = text.position offset := by
    rcases Nat.le_total offset text.byteLength with hle | hle
    · rw [Nat.min_eq_left hle]
    · rw [Nat.min_eq_right hle, Text.position_of_le hle]
  obtain ⟨boundary, hfloor, hposition⟩ := Text.position_floor text (min offset text.byteLength)
  obtain ⟨a, b, rfl, rfl⟩ := Text.isBoundary_iff.1 hfloor.1.1
  obtain ⟨line, before, after, u, h, rfl, hu, -⟩ := Text.exists_lineAt a b
  have hstart : Checked.item (of (before ++ u ++ b)).starts ((before ++ u).count '\n') =
      .ok before.byteLength := by
    refine Checked.item_eq_ok ?_
    rw [List.count_append, Text.count_newline_eq_zero hu, Nat.add_zero, List.append_assoc]
    exact getElem?_starts h.begins (u ++ b)
  have hchars : Checked.slice (before ++ u ++ b) ⟨before.byteLength, (before ++ u).byteLength⟩ =
      .ok u := by
    rw [List.append_assoc, Text.byteLength_append]
    exact Checked.slice_append before u b
  have hcolumn : (before ++ u).lastLine = u := Text.lastLine_append h.begins hu
  rw [← hclamp, hposition, Text.position_eq, hcolumn]
  have hfloor' := floorBoundary_eq hfloor
  have hline := lineOf_eq (before ++ u) b
  simp only [position, of] at hstart hline ⊢
  simp only [hfloor', hline, hstart, hchars, Checked.ok_bind, Checked.pure_eq_ok]

theorem range_eq (text : Text) (span : Span) : (of text).range span = .ok (text.range span) := by
  rw [range, position_eq, position_eq]
  rfl

/-! ## The span of a line -/

/-- The end behind a character moves before it if the character is a carriage return. -/
theorem beforeReturn_char {a : Text} {start : Nat} (hstart : start ≤ a.byteLength) (c : Char)
    (rest : Text) :
    (of (a ++ c :: rest)).beforeReturn start (a.byteLength + c.utf8Size) =
      .ok (if c = '\r' then a.byteLength else a.byteLength + c.utf8Size) := by
  have hpos := c.utf8Size_pos
  obtain ⟨b, hbyte, hb⟩ := Text.byte?_last a c rest (d := '\r') (by decide)
  have hitem : Checked.item (of (a ++ c :: rest)).text.bytes (a.byteLength + (c.utf8Size - 1)) =
      .ok b := Checked.item_eq_ok hbyte
  rw [beforeReturn, if_pos (by omega), Checked.minus_of_le (by omega), Checked.ok_bind,
    Nat.add_sub_assoc hpos, hitem, Checked.ok_bind, Checked.pure_eq_ok]
  by_cases hc : c = '\r'
  · subst hc
    rw [if_pos (hb.2 rfl), if_pos rfl]
    rfl
  · rw [if_neg (mt hb.1 hc), if_neg hc]

/-- A part ends before the carriage return at its end. -/
theorem beforeReturn_eq (before part after : Text) :
    (of (before ++ (part ++ after))).beforeReturn before.byteLength
        (before.byteLength + part.byteLength) =
      .ok (Text.withoutReturn ⟨before.byteLength, part⟩).stop := by
  rcases List.eq_nil_or_concat part with rfl | ⟨init, c, rfl⟩
  · simp [beforeReturn, Text.withoutReturn, Fragment.stop]
  · have hstart : before.byteLength ≤ Text.byteLength (before ++ init) := by simp
    have hchar := beforeReturn_char hstart c after
    have hstop : before.byteLength + Text.byteLength (init ++ [c]) =
        Text.byteLength (before ++ init) + c.utf8Size := by
      simp [Nat.add_assoc]
    rw [List.append_assoc] at hchar
    rw [List.concat_eq_append, List.append_assoc, List.singleton_append, hstop, hchar,
      Text.withoutReturn]
    by_cases hc : c = '\r'
    · simp [hc, Fragment.stop]
    · simp [hc, Fragment.stop, Nat.add_assoc]

/-- A line ends before its line feed, or at the end of the text. -/
theorem beforeFeed_eq {before part after : Text} (hbegins : ∀ c ∈ before.getLast?, c = '\n')
    (hpart : ∀ c ∈ part, c ≠ '\n') (hafter : ∀ c ∈ after.head?, c = '\n') :
    (of (before ++ (part ++ after))).beforeFeed (before.count '\n') =
      .ok (before.byteLength + part.byteLength) := by
  obtain ⟨earlier, hstarts, hlength, -⟩ := starts_split hbegins (part ++ after)
  rw [Text.bytes_append, feedsFrom_append, feedsFrom_line hpart, List.nil_append,
    Text.length_bytes] at hstarts
  have hnext : (of (before ++ (part ++ after))).starts[before.count '\n' + 1]? =
      (feedsFrom (before.byteLength + part.byteLength) after.bytes).head? := by
    rw [hstarts, ← hlength, List.getElem?_append_right (Nat.le_add_right _ 1),
      Nat.add_sub_cancel_left, List.head?_eq_getElem?]
    rfl
  rw [beforeFeed, hnext]
  cases after with
  | nil =>
    show Except.ok (before ++ (part ++ [])).byteLength = _
    rw [List.append_nil, Text.byteLength_append]
  | cons c after =>
    obtain rfl := hafter c rfl
    rw [feedsFrom_feed]
    exact Checked.minus_add _ 1

theorem length_starts (text : Text) : (of text).starts.length = text.lineCount := by
  rw [Text.lineCount_eq, of, List.length_cons, length_feedsFrom]

/-- **The span of a line**, if there is such a line. -/
theorem lineSpan?_eq (text : Text) (line : Nat) :
    (of text).lineSpan? line = .ok ((text.line? line).map Fragment.span) := by
  rw [lineSpan?, Text.line?]
  cases hf : text.lines[line]? with
  | none =>
    have hnone : (of text).starts[line]? = none := by
      rw [List.getElem?_eq_none_iff, length_starts]
      exact List.getElem?_eq_none_iff.1 hf
    rw [hnone]
    rfl
  | some f =>
    obtain ⟨before, after, htext, hstart, hcount, hbegins, hinside, hafter⟩ :=
      Text.getElem?_splitFrom hf
    obtain ⟨start, part⟩ := f
    obtain rfl : text = before ++ (part ++ after) := htext
    obtain rfl : start = before.byteLength := hstart.trans (Nat.zero_add _)
    obtain rfl := hcount
    have hsame : (Text.withoutReturn ⟨before.byteLength, part⟩).start = before.byteLength := by
      unfold Text.withoutReturn
      split <;> rfl
    simp only [getElem?_starts hbegins, beforeFeed_eq hbegins hinside hafter, beforeReturn_eq,
      Checked.ok_bind, Checked.pure_eq_ok, Option.map_some, Fragment.span, hsame]

/-- **The range of a line**, or the origin. -/
theorem lineRange_eq (text : Text) (line : Nat) :
    (of text).lineRange line = .ok (text.lineRange line) := by
  rw [lineRange, lineSpan?_eq, Checked.ok_bind, Text.lineRange]
  cases text.line? line with
  | none => rfl
  | some f => exact range_eq text f.span

end LineIndex

end StyleServer
