/-
  Requests at the position of a pointer, answered at byte offsets.

  An editor names a line and a column.  The offset of these is looked up, and all that is asked
  there is answered by slices whose ends are computed from it.

  * `LineIndex.offset?`, `LineIndex.offset?_eq`: the offset of a position.
    `Text.isBoundary_offset?`: it is between two characters, wherever the position is.
  * `Text.findLast?`, `Text.findFirst?`: searching from either side.
  * `contextIn_of_ok`, `itemsAt_eq`, `wordAt_eq`, `hoverIn_eq`, `markupContextIn_eq`,
    `classReferencesIn_eq`: what is typed, what is hovered over and which class is named, with
    ends that fit.
  * `Text.AnswersAt`, `requests_never_fail`: every request at a position has its answer.
-/
import StyleServer.Completion.Sheet
import StyleServer.Markup.Context
import StyleServer.Proofs.Bytewise.Lines
import StyleServer.Proofs.Bytewise.Parse
import StyleServer.Proofs.Completion.Front
import StyleServer.Proofs.Hover
import StyleServer.Proofs.Markup.References
import StyleServer.Proofs.Text.Offsets

namespace StyleServer

/-! ## The offset of a position -/

/-- The offset of the first character at or behind a column, in a line that ends at `stop`.
    The characters begin at `offset`, behind `units` columns. -/
def offsetFrom (column stop offset units : Nat) : Text → Nat
  | [] => stop
  | c :: cs =>
    if column ≤ units then offset
    else offsetFrom column stop (offset + c.utf8Size) (units + Text.units c) cs

/-- The offset of a position, if there is such a line. -/
def LineIndex.offset? (index : LineIndex) (p : Position) : Checked (Option Nat) := do
  match ← index.lineSpan? p.line with
  | none => return none
  | some line =>
    let chars ← Checked.slice index.text line
    return some (offsetFrom p.character line.stop line.start 0 chars)

theorem offsetFrom_eq (column offset units : Nat) (cs : Text) :
    offsetFrom column (offset + cs.byteLength) offset units cs =
      offset + Text.columnOffset (column - units) cs := by
  induction cs generalizing offset units with
  | nil => rfl
  | cons c cs ih =>
    rw [offsetFrom]
    by_cases hle : column ≤ units
    · rw [if_pos hle, Nat.sub_eq_zero_of_le hle, Text.columnOffset_zero, Nat.add_zero]
    · obtain ⟨k, hk⟩ : ∃ k, column - units = k + 1 := ⟨column - units - 1, by omega⟩
      have hrest : column - (units + Text.units c) = k + 1 - Text.units c := by omega
      rw [if_neg hle, Text.byteLength_cons, ← Nat.add_assoc, ih, hrest, hk, Text.columnOffset,
        Nat.add_assoc]

theorem Text.line?_in {text : Text} {index : Nat} {line : Fragment}
    (h : text.line? index = some line) : line.In text := by
  obtain ⟨before, after, h⟩ := line?_eq_some_iff.1 h
  exact ⟨before, after, by rw [h.text_eq, List.append_assoc], h.start_eq.symm⟩

/-- **The offset of a position** is looked up without a failure. -/
theorem LineIndex.offset?_eq (text : Text) (p : Position) :
    (of text).offset? p = .ok (text.offset? p) := by
  rw [offset?, lineSpan?_eq, Checked.ok_bind, Text.offset?]
  cases hline : text.line? p.line with
  | none => rfl
  | some line =>
    have hslice : Checked.slice (of text).text line.span = .ok line.chars :=
      Checked.slice_of_in (Text.line?_in hline)
    have hoffset := offsetFrom_eq p.character line.start 0 line.chars
    rw [Nat.sub_zero] at hoffset
    simp only [Option.map_some, hslice, Checked.ok_bind, Checked.pure_eq_ok, ← hoffset]
    rfl

/-- **The offset of a position** is between two characters of the text. -/
theorem Text.isBoundary_offset? {text : Text} {p : Position} {o : Nat}
    (h : text.offset? p = some o) : text.isBoundary o = true := by
  obtain ⟨line, hline, rfl⟩ := Option.map_eq_some_iff.1 h
  obtain ⟨before, after, hat⟩ := line?_eq_some_iff.1 hline
  obtain ⟨u, v, hchars, hoffset, -⟩ := columnOffset_spec p.character line.chars
  rw [hoffset]
  exact (hat.isBoundary_cut hchars).1

theorem Text.le_of_isBoundary {text : Text} {o : Nat} (h : text.isBoundary o = true) :
    o ≤ text.byteLength := by
  obtain ⟨a, b, rfl, rfl⟩ := isBoundary_iff.1 h
  rw [byteLength_append]
  exact Nat.le_add_right _ _

theorem Text.min_byteLength_append (a b : Text) :
    min a.byteLength (a ++ b).byteLength = a.byteLength := by
  rw [byteLength_append]
  omega

/-- The part of a text in front. -/
theorem Checked.slice_front (a b : Text) : slice (a ++ b) ⟨0, a.byteLength⟩ = .ok a := by
  have h := slice_append [] a b
  rwa [Text.byteLength_nil, Nat.zero_add] at h

/-! ## Searching from either side -/

namespace Text

/-- Characters that begin at an offset, each with its own. -/
def charIndicesFrom (offset : Nat) : Text → List (Nat × Char)
  | [] => []
  | c :: cs => (offset, c) :: charIndicesFrom (offset + c.utf8Size) cs

/-- The first character that satisfies `p`, with its offset. -/
def findFirst? (p : Char → Bool) (text : Text) : Option (Nat × Char) :=
  (charIndicesFrom 0 text).find? fun ic => p ic.2

/-- The last character that satisfies `p`, with its offset. -/
def findLast? (p : Char → Bool) (text : Text) : Option (Nat × Char) :=
  (charIndicesFrom 0 text).reverse.find? fun ic => p ic.2

theorem charIndicesFrom_append (offset : Nat) (a b : Text) :
    charIndicesFrom offset (a ++ b) =
      charIndicesFrom offset a ++ charIndicesFrom (offset + a.byteLength) b := by
  induction a generalizing offset with
  | nil => rfl
  | cons c a ih => rw [List.cons_append, charIndicesFrom, ih, byteLength_cons, Nat.add_assoc]; rfl

theorem snd_mem_of_charIndicesFrom {offset : Nat} {text : Text} {ic : Nat × Char}
    (h : ic ∈ charIndicesFrom offset text) : ic.2 ∈ text := by
  induction text generalizing offset with
  | nil => simp [charIndicesFrom] at h
  | cons c cs ih =>
    rcases List.mem_cons.1 h with rfl | h
    · exact List.mem_cons_self
    · exact List.mem_cons_of_mem c (ih h)

variable {p : Char → Bool} {run before after : Text}

/-- Nothing is found among characters of which none satisfies `p`. -/
theorem not_of_mem_charIndicesFrom (hrun : ∀ c ∈ run, p c = false) {offset : Nat}
    {ic : Nat × Char} (h : ic ∈ charIndicesFrom offset run) : ¬ p ic.2 = true := by
  rw [hrun _ (snd_mem_of_charIndicesFrom h)]
  exact Bool.false_ne_true

/-- **From the left,** the run in front is passed over. -/
theorem findFirst?_append (hrun : ∀ c ∈ run, p c = false)
    (hafter : ∀ c ∈ after.head?, p c = true) :
    findFirst? p (run ++ after) = after.head?.map fun c => (run.byteLength, c) := by
  have hnone : (charIndicesFrom 0 run).find? (fun ic => p ic.2) = none :=
    List.find?_eq_none.2 fun ic hic => not_of_mem_charIndicesFrom hrun hic
  rw [findFirst?, charIndicesFrom_append, List.find?_append, hnone, Nat.zero_add]
  cases after with
  | nil => rfl
  | cons c after =>
    have hc : p c = true := hafter c rfl
    simp [charIndicesFrom, hc]

/-- **From the right,** the run at the end is passed over. -/
theorem findLast?_append (hrun : ∀ c ∈ run, p c = false)
    (hbefore : ∀ c ∈ before.getLast?, p c = true) :
    findLast? p (before ++ run) =
      before.getLast?.map fun c => (byteLength before.dropLast, c) := by
  have hnone : ∀ offset, (charIndicesFrom offset run).reverse.find? (fun ic => p ic.2) = none :=
    fun offset => List.find?_eq_none.2 fun ic hic =>
      not_of_mem_charIndicesFrom hrun (List.mem_reverse.1 hic)
  rw [findLast?, charIndicesFrom_append, List.reverse_append, List.find?_append, hnone]
  rcases List.eq_nil_or_concat before with rfl | ⟨init, c, rfl⟩
  · rfl
  · rw [List.concat_eq_append] at hbefore ⊢
    have hc : p c = true := hbefore c (by simp)
    simp [charIndicesFrom_append, charIndicesFrom, hc]

theorem byteLength_dropLast {c : Char} (h : before.getLast? = some c) :
    byteLength before.dropLast + c.utf8Size = before.byteLength := by
  obtain ⟨init, rfl⟩ := List.getLast?_eq_some_iff.1 h
  rw [List.dropLast_concat, byteLength_append]
  rfl

end Text

/-! ## What is typed -/

/-- What is typed at an offset of a sheet. -/
def contextIn (text : Text) (offset : Nat) : Checked CompletionContext := do
  let offset := min offset text.byteLength
  let ts ← tokenize text
  let cursor := (ts.takeWhile (·.span.start < offset)).foldl Cursor.step ⟨0, 0⟩
  if cursor.depth = 0 then return .selector
  else
    let written ← Checked.slice text ⟨cursor.segment, offset⟩
    return .ofDeclaration written

/-- The items at an offset of a sheet. -/
def itemsAt (s : Sheet) (r : Registry) (offset : Nat) : Checked (List CompletionItem) := do
  let context ← contextIn s.source offset
  return s.itemsIn r context

/-- **What is typed** is found without a failure where the offset can be cut at. -/
theorem contextIn_of_ok {text : Text} {o : Nat} {context : CompletionContext}
    (h : completionContext text o = .ok context) : contextIn text o = .ok context := by
  have hcursor : ((tokens text).takeWhile (·.span.start < min o text.byteLength)).foldl
      Cursor.step ⟨0, 0⟩ = Cursor.before text (min o text.byteLength) := rfl
  rw [contextIn, tokenize_eq, Checked.ok_bind]
  rw [completionContext] at h
  dsimp only at h ⊢
  rw [hcursor]
  by_cases hdepth : (Cursor.before text (min o text.byteLength)).depth = 0
  · rw [if_pos hdepth] at h ⊢
    cases h
    rfl
  · rw [if_neg hdepth] at h ⊢
    rw [Checked.slice]
    cases hslice : text.slice? ⟨(Cursor.before text (min o text.byteLength)).segment,
        min o text.byteLength⟩ with
    | none => rw [hslice] at h; cases h
    | some written =>
      rw [hslice] at h
      cases h
      rfl

theorem itemsAt_eq {text : Text} {o : Nat} (ho : text.isBoundary o = true) (r : Registry) :
    ∃ items, itemsAt (Sheet.ofText text) r o = .ok items ∧
      (Sheet.ofText text).completionItems r o = .ok items := by
  obtain ⟨front, behind, rfl, rfl⟩ := Text.isBoundary_iff.1 ho
  obtain ⟨context, hcontext, -⟩ := completionContext_append front behind
  have hsource : (Sheet.ofText (front ++ behind)).source = front ++ behind := rfl
  refine ⟨(Sheet.ofText (front ++ behind)).itemsIn r context, ?_, ?_⟩
  · rw [itemsAt, hsource, contextIn_of_ok hcontext]
    rfl
  · rw [Sheet.completionItems, hsource, hcontext]
    rfl

/-! ## What is hovered over -/

/-- The keyword at an offset of the value at a span, with its own span. -/
def wordAt (text : Text) (valueSpan : Span) (offset : Nat) : Checked (Option (Text × Span)) := do
  let value ← Checked.slice text valueSpan
  if offset < valueSpan.start then return none
  else
    let relative := min (offset - valueSpan.start) value.byteLength
    let before ← Checked.slice value ⟨0, relative⟩
    let after ← Checked.sliceFrom value relative
    let start := (before.findLast? fun c => !isKeywordChar c).elim 0 fun ic =>
      ic.1 + ic.2.utf8Size
    let stop := (after.findFirst? fun c => !isKeywordChar c).elim value.byteLength fun ic =>
      relative + ic.1
    if start < stop then
      let word ← Checked.slice value ⟨start, stop⟩
      return some (word, ⟨valueSpan.start + start, valueSpan.start + stop⟩)
    else return none

/-- The hover on the value of a declaration. -/
def hoverValueIn (s : Sheet) (r : Registry) (d : Declaration) (offset : Nat) :
    Checked (Option Hover) :=
  match r.find? d.name with
  | none => .ok none
  | some definition => do
    match ← wordAt s.source d.valueSpan offset with
    | none => return none
    | some (word, span) =>
      match definition.keywordDocumentation? (String.ofList word) with
      | none => return none
      | some markdown =>
        let range ← (LineIndex.of s.source).range span
        return some ⟨markdown, range⟩

/-- The hover at an offset of a sheet. -/
def hoverIn (s : Sheet) (r : Registry) (offset : Nat) : Checked (Option Hover) :=
  match s.declarationAt? offset with
  | some d =>
    if d.nameSpan.touches offset then do
      let range ← (LineIndex.of s.source).range d.nameSpan
      return some ⟨Sheet.nameMarkdown r d, range⟩
    else hoverValueIn s r d offset
  | none =>
    match s.selectorAt? offset with
    | none => .ok none
    | some sel => do
      let range ← (LineIndex.of s.source).range sel.span
      return some ⟨sel.kind.description ++ " `" ++ sel.text ++ "`", range⟩

/-- Going back from a cut ends where the run before it begins. -/
theorem behindLast_eq {p : Char → Bool} {before run : Text} (hrun : ∀ c ∈ run, p c = false)
    (hbefore : ∀ c ∈ before.getLast?, p c = true) :
    ((before ++ run).findLast? p).elim 0 (fun ic => ic.1 + ic.2.utf8Size) =
      before.byteLength := by
  rw [Text.findLast?_append hrun hbefore]
  cases hlast : before.getLast? with
  | none => rw [List.getLast?_eq_none_iff.1 hlast]; rfl
  | some c => exact Text.byteLength_dropLast hlast

/-- Going on from a cut ends where the run behind it does. -/
theorem beforeFirst_eq {p : Char → Bool} {run after : Text} (hrun : ∀ c ∈ run, p c = false)
    (hafter : ∀ c ∈ after.head?, p c = true) (n : Nat) :
    ((run ++ after).findFirst? p).elim (n + (run ++ after).byteLength) (fun ic => n + ic.1) =
      n + run.byteLength := by
  rw [Text.findFirst?_append hrun hafter]
  cases after with
  | nil => rw [List.append_nil]; rfl
  | cons c after => rfl

/-- **The keyword at a cut** of a value that stands in the text. -/
theorem wordAt_cut {text a b : Text} {value : Fragment} (h : value.In text)
    (hcut : value.chars = a ++ b) :
    ∃ word, wordAt text value.span (value.start + a.byteLength) =
        .ok (word.map fun w : Fragment => (w.chars, w.span)) ∧
      value.keywordAt (value.start + a.byteLength) = .ok word := by
  obtain ⟨before, left, rfl, hleft, hbefore⟩ := Fragment.exists_left a
  obtain ⟨right, after, rfl, hright, hafter⟩ := Fragment.exists_right b
  obtain ⟨start, chars⟩ := value
  obtain rfl : chars = (before ++ left) ++ (right ++ after) := hcut
  refine ⟨_, ?_, Fragment.keywordAt_split start hleft hright hbefore hafter⟩
  have hleft' : ∀ c ∈ left, (!isKeywordChar c) = false := by simpa using hleft
  have hright' : ∀ c ∈ right, (!isKeywordChar c) = false := by simpa using hright
  have hbefore' : ∀ c ∈ before.getLast?, (!isKeywordChar c) = true := by simpa using hbefore
  have hafter' : ∀ c ∈ after.head?, (!isKeywordChar c) = true := by simpa using hafter
  have hword : Checked.slice ((before ++ left) ++ (right ++ after))
      ⟨before.byteLength, (before ++ left).byteLength + right.byteLength⟩ =
        .ok (left ++ right) := by
    have := Checked.slice_append before (left ++ right) after
    simpa [Nat.add_assoc] using this
  have hstop := beforeFirst_eq hright' hafter' (before ++ left).byteLength
  rw [← Text.byteLength_append] at hstop
  rw [wordAt, Checked.slice_of_in h, Checked.ok_bind, if_neg (by simp [Fragment.span])]
  dsimp only [Fragment.span]
  rw [Nat.add_sub_cancel_left, Text.min_byteLength_append, Checked.slice_front, Checked.ok_bind,
    Checked.sliceFrom_append, Checked.ok_bind, behindLast_eq hleft' hbefore', hstop, hword,
    Checked.ok_bind]
  -- The run is empty exactly where its ends meet.
  by_cases hnil : left ++ right = []
  · have hsize : ¬ before.byteLength < (before ++ left).byteLength + right.byteLength := by
      obtain ⟨rfl, rfl⟩ := List.append_eq_nil_iff.1 hnil
      simp
    rw [if_neg hsize, hnil]
    rfl
  · have hpos := Text.byteLength_pos hnil
    have hsize : before.byteLength < (before ++ left).byteLength + right.byteLength := by
      rw [Text.byteLength_append] at hpos ⊢
      omega
    rw [if_pos hsize, if_neg (by simpa using hnil)]
    simp [Fragment.stop, Nat.add_assoc]

/-- The keyword at an offset up to the end of a value. -/
theorem wordAt_eq {text : Text} {value : Fragment} {o : Nat} (h : value.In text)
    (ho : text.isBoundary o = true) (hle : o ≤ value.stop) :
    ∃ word, wordAt text value.span o = .ok (word.map fun w : Fragment => (w.chars, w.span)) ∧
      value.keywordAt o = .ok word := by
  by_cases hlt : o < value.start
  · refine ⟨none, ?_, by rw [Fragment.keywordAt, if_pos hlt]⟩
    rw [wordAt, Checked.slice_of_in h, Checked.ok_bind, if_pos (show o < value.span.start from hlt)]
    rfl
  · obtain ⟨a, b, hcut, rfl⟩ := h.exists_cut ho (Span.touches_iff.2 ⟨Nat.le_of_not_lt hlt, hle⟩)
    exact wordAt_cut h hcut

theorem hoverValueIn_eq {s : Sheet} {d : Declaration} {value : Fragment} {o : Nat}
    (h : value.In s.source) (hspan : d.valueSpan = value.span)
    (ho : s.source.isBoundary o = true) (hle : o ≤ value.stop) (r : Registry) :
    ∃ found, hoverValueIn s r d o = .ok found ∧ s.hoverValue r d o = .ok found := by
  obtain ⟨word, hword, hkeyword⟩ := wordAt_eq h ho hle
  rw [hoverValueIn, Sheet.hoverValue, hspan, h.slice?_eq, hword]
  cases r.find? d.name with
  | none => exact ⟨none, rfl, rfl⟩
  | some definition =>
    dsimp only
    rw [hkeyword, Checked.ok_bind]
    cases word with
    | none => exact ⟨none, rfl, rfl⟩
    | some word =>
      refine ⟨_, ?_, rfl⟩
      dsimp only [Option.map_some, Option.bind_some]
      rw [Fragment.text, LineIndex.range_eq]
      cases definition.keywordDocumentation? (String.ofList word.chars) <;> rfl

/-- **What is hovered over** between two characters is found without a failure. -/
theorem hoverIn_eq {text : Text} {o : Nat} (ho : text.isBoundary o = true) (r : Registry) :
    ∃ found, hoverIn (Sheet.ofText text) r o = .ok found ∧
      (Sheet.ofText text).hover r o = .ok found := by
  rw [hoverIn, Sheet.hover]
  cases hd : (Sheet.ofText text).declarationAt? o with
  | none =>
    cases (Sheet.ofText text).selectorAt? o with
    | none => exact ⟨none, rfl, rfl⟩
    | some sel =>
      refine ⟨_, ?_, rfl⟩
      dsimp only
      rw [LineIndex.range_eq]
      rfl
  | some d =>
    obtain ⟨hmem, htouch⟩ := ((Sheet.declarationAt?_onlyAt text o).found_iff d).1 hd
    obtain ⟨value, hvalue, hspan⟩ := Sheet.exists_value hmem
    rw [(Sheet.declaration_laid hmem).span_eq, hspan] at htouch
    dsimp only
    split
    · refine ⟨_, ?_, rfl⟩
      rw [LineIndex.range_eq]
      rfl
    · exact hoverValueIn_eq (s := Sheet.ofText text) hvalue hspan ho (Span.touches_iff.1 htouch).2 r

/-! ## Markup -/

/-- What is typed at an offset of markup. -/
def markupContextIn (text : Text) (offset : Nat) : Checked (Option MarkupContext) := do
  let offset := min offset text.byteLength
  let before ← Checked.slice text ⟨0, offset⟩
  let start := (before.findLast? (· == '\n')).elim 0 fun ic => ic.1 + 1
  let line ← Checked.slice text ⟨start, offset⟩
  return MarkupContext.ofLine? line

/-- The names among pieces that stand one behind the other, with one blank between any two. -/
def namesFrom (offset : Nat) : List Text → List ClassReference
  | [] => []
  | piece :: pieces =>
    let rest := namesFrom (offset + piece.byteLength + 1) pieces
    if piece.isEmpty then rest
    else ⟨String.ofList piece, ⟨offset, offset + piece.byteLength⟩⟩ :: rest

/-- The class names of an attribute's value. -/
def namesIn (text : Text) (value : Span) : Checked (List ClassReference) := do
  let chars ← Checked.slice text value
  return namesFrom value.start (chars.splitOnP isAsciiBlank)

/-- The class names of a text. -/
def classReferencesIn (text : Text) : Checked (List ClassReference) := do
  let found ← (classAttributes text).mapM fun value => namesIn text value.span
  return found.flatten

/-- The class name at an offset. -/
def classReferenceIn (text : Text) (offset : Nat) : Checked (Option ClassReference) := do
  let found ← classReferencesIn text
  return found.find? (·.span.touches offset)

/-- **What is typed in markup** between two characters is found without a failure. -/
theorem markupContextIn_eq {text : Text} {o : Nat} (ho : text.isBoundary o = true) :
    ∃ found, markupContextIn text o = .ok found ∧ markupContext text o = .ok found := by
  obtain ⟨front, behind, rfl, rfl⟩ := Text.isBoundary_iff.1 ho
  refine ⟨MarkupContext.ofLine? front.lastLine, ?_, ?_⟩
  · obtain ⟨line, before, after, u, h, rfl, hu, -⟩ := Text.exists_lineAt front behind
    have hline : Checked.slice (before ++ u ++ behind)
        ⟨before.byteLength, (before ++ u).byteLength⟩ = .ok u := by
      rw [List.append_assoc, Text.byteLength_append]
      exact Checked.slice_append before u behind
    have hfeed : ((before ++ u).findLast? (· == '\n')).elim 0 (fun ic => ic.1 + 1) =
        before.byteLength := by
      rw [Text.findLast?_append (by simpa using hu) (by simpa using h.begins)]
      cases hlast : before.getLast? with
      | none => rw [List.getLast?_eq_none_iff.1 hlast]; rfl
      | some c =>
        obtain rfl := h.begins c hlast
        exact Text.byteLength_dropLast hlast
    rw [markupContextIn, Text.min_byteLength_append, Checked.slice_front, Checked.ok_bind, hfeed,
      Text.lastLine_append h.begins hu]
    show (Checked.slice (before ++ u ++ behind) _ >>= _) = _
    rw [hline]
    rfl
  · rw [markupContext, Text.cut_byteLength]
    rfl

/-- **Adding up the lengths of the pieces** leads to the words. -/
theorem namesFrom_eq (offset : Nat) (text : Text) :
    namesFrom offset (text.splitOnP isAsciiBlank) =
      (wordsFrom offset text).map ClassReference.ofWord := by
  -- Between two pieces stands a blank, which is one byte.
  have hblank : ∀ (c : Char) (cs : Text) (n : Nat), isAsciiBlank c = true →
      namesFrom n (List.splitOnP isAsciiBlank (c :: cs)) =
        namesFrom (n + c.utf8Size) (cs.splitOnP isAsciiBlank) := by
    intro c cs n hc
    rw [List.splitOnP_cons_eq_if_modifyHead, if_pos hc,
      Text.utf8Size_of_ascii (ascii_of_isAsciiBlank hc)]
    rfl
  induction text using words_induction generalizing offset with
  | nil => rfl
  | blank c cs hc ih => rw [hblank c cs offset hc, wordsFrom_blank hc, ih]
  | word chars cs hne hrun hstop ih =>
    have hword : namesFrom offset ((chars ++ cs).splitOnP isAsciiBlank) =
        ClassReference.ofWord ⟨offset, chars⟩ ::
          namesFrom (offset + chars.byteLength) (cs.splitOnP isAsciiBlank) := by
      have hempty : chars.isEmpty = false := by simpa using hne
      cases cs with
      | nil =>
        rw [List.append_nil, List.splitOnP_eq_singleton hrun, namesFrom, hempty]
        rfl
      | cons d cs =>
        have hd := hstop d rfl
        rw [List.splitOnP_append_cons_of_forall_mem hrun d hd, namesFrom, hempty,
          hblank d cs _ hd, Text.utf8Size_of_ascii (ascii_of_isAsciiBlank hd)]
        rfl
    rw [hword, ih, wordsFrom_word hne hrun hstop]
    rfl

/-- **The class names of a text** are found without a failure. -/
theorem classReferencesIn_eq (text : Text) :
    classReferencesIn text = .ok (classReferences text) := by
  have hvalues : ∀ values : List Fragment, (∀ value ∈ values, value.In text) →
      values.mapM (fun value => namesIn text value.span) =
        .ok (values.map fun value => value.words.map ClassReference.ofWord) := by
    intro values hin
    induction values with
    | nil => rfl
    | cons value values ih =>
      obtain ⟨hvalue, hin⟩ := List.forall_mem_cons.1 hin
      rw [List.mapM_cons, ih hin, namesIn, Checked.slice_of_in hvalue, Checked.ok_bind,
        namesFrom_eq]
      rfl
  rw [classReferencesIn, hvalues _ fun value => classAttributes_in, Checked.ok_bind]
  rfl

/-! ## All requests -/

/-- What can be asked at an offset of a text, as a sheet or as markup: each has its answer, the
    one of the library, without a fault. -/
structure Text.AnswersAt (text : Text) (o : Nat) : Prop where
  le : o ≤ text.byteLength
  boundary : text.isBoundary o = true
  completion : ∀ r, ∃ items, (parseTokens text >>= fun s => itemsAt s r o) = .ok items ∧
    (Sheet.ofText text).completionItems r o = .ok items
  hover : ∀ r, ∃ found, (parseTokens text >>= fun s => hoverIn s r o) = .ok found ∧
    (Sheet.ofText text).hover r o = .ok found
  variable_ref : (do let s ← parseTokens text; return s.refAt? o) =
    .ok ((Sheet.ofText text).refAt? o)
  import_path : (do let s ← parseTokens text; return s.importAt? o) =
    .ok ((Sheet.ofText text).importAt? o)
  markup : ∃ found, markupContextIn text o = .ok found ∧ markupContext text o = .ok found
  class_name : classReferenceIn text o = .ok (classReferenceAt? text o)

/-- **Between two characters,** every request is answered. -/
theorem Text.answersAt {text : Text} {o : Nat} (ho : text.isBoundary o = true) :
    text.AnswersAt o where
  le := le_of_isBoundary ho
  boundary := ho
  completion := by
    intro r
    rw [parseTokens_eq, Checked.ok_bind]
    exact itemsAt_eq ho r
  hover := by
    intro r
    rw [parseTokens_eq, Checked.ok_bind]
    exact hoverIn_eq ho r
  variable_ref := by
    rw [parseTokens_eq]
    rfl
  import_path := by
    rw [parseTokens_eq]
    rfl
  markup := markupContextIn_eq ho
  class_name := by
    rw [classReferenceIn, classReferencesIn_eq]
    rfl

/-- Requests at an offset inside of a character do fail. -/
example : markupContextIn "é".toList 1 = .error (.slice ⟨0, 1⟩) := rfl

/-- **Requests at a position never fail:** the offset of any position is looked up, and where
    the line exists, every request there is answered. -/
theorem requests_never_fail (text : Text) (p : Position) :
    ∃ found, (LineIndex.of text).offset? p = .ok found ∧ text.offset? p = found ∧
      (found = none ↔ text.lineCount ≤ p.line) ∧ ∀ o ∈ found, text.AnswersAt o := by
  refine ⟨text.offset? p, LineIndex.offset?_eq text p, rfl, Text.offset?_eq_none_iff text p, ?_⟩
  intro o ho
  exact Text.answersAt (Text.isBoundary_offset? ho)

/-- A sheet with a character of four bytes and of two columns. -/
def wideValue : Text := "é\x7b\n b: 😀d;\x7d".toList

/-- Between the two columns of a character, and past the end of a line. -/
theorem wideValue_answered :
    (wideValue.offset? ⟨1, 5⟩ = some 12 ∧ wideValue.AnswersAt 12) ∧
      wideValue.offset? ⟨0, 40⟩ = some 3 ∧ wideValue.AnswersAt 3 := by
  have hinside : wideValue.offset? ⟨1, 5⟩ = some 12 := by decide
  have hpast : wideValue.offset? ⟨0, 40⟩ = some 3 := by decide
  obtain ⟨_, -, rfl, -, hanswers⟩ := requests_never_fail wideValue ⟨1, 5⟩
  obtain ⟨_, -, rfl, -, hanswers'⟩ := requests_never_fail wideValue ⟨0, 40⟩
  exact ⟨⟨hinside, hanswers 12 hinside⟩, hpast, hanswers' 3 hpast⟩

end StyleServer
