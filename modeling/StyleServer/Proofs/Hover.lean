/-
  What is hovered over.

  On a value, the keyword under the pointer is found by going from the pointer to both sides.

  * `Fragment.IsKeywordOf`: a keyword of a value, said without a pointer: a run of keyword
    characters that is as long as can be.
  * `Fragment.keywordAt_split`: going to both sides of a cut finds the run around it, and
    `Fragment.keywordAt_spec`: so it finds the keyword that the cut touches, the only one there.
  * `Sheet.hoverValue_spec`, `Sheet.hover_spec`: the hover on a value, and that on anything else.
  * `Sheet.HoversAt`, `Sheet.hover_exact`: what is shown at an offset, and for which range.
-/
import StyleServer.Hover
import StyleServer.Proofs.Outline
import StyleServer.Proofs.Sheet.Lookup

namespace StyleServer

/-! ## Keywords of a value -/

/-- The value is `before`, the keyword and `after`.  No character beside the keyword could be
    a part of it. -/
structure Fragment.KeywordBetween (value word : Fragment) (before after : Text) : Prop where
  chars_eq : value.chars = before ++ (word.chars ++ after)
  start_eq : word.start = value.start + before.byteLength
  ne_nil : word.chars ≠ []
  run : ∀ c ∈ word.chars, isKeywordChar c = true
  before_stop : ∀ c ∈ before.getLast?, isKeywordChar c = false
  after_stop : ∀ c ∈ after.head?, isKeywordChar c = false

/-- A keyword of a value: a run of keyword characters, as long as can be. -/
def Fragment.IsKeywordOf (word value : Fragment) : Prop :=
  ∃ before after, value.KeywordBetween word before after

theorem Text.byteLength_reverse (text : Text) : byteLength text.reverse = byteLength text := by
  induction text with
  | nil => rfl
  | cons c cs ih =>
    simp only [List.reverse_cons, byteLength_append, byteLength_cons, byteLength_nil, ih]
    omega

namespace Fragment

variable {value word : Fragment}

/-- **Going to both sides** from a cut gives the run around it. -/
theorem keywordAt_split (start : Nat) {before left right after : Text}
    (hleft : ∀ c ∈ left, isKeywordChar c = true) (hright : ∀ c ∈ right, isKeywordChar c = true)
    (hbefore : ∀ c ∈ before.getLast?, isKeywordChar c = false)
    (hafter : ∀ c ∈ after.head?, isKeywordChar c = false) :
    keywordAt ⟨start, (before ++ left) ++ (right ++ after)⟩ (start + (before ++ left).byteLength) =
      .ok (if (left ++ right).isEmpty then none
        else some ⟨start + before.byteLength, left ++ right⟩) := by
  have hstop : ∀ c ∈ before.reverse.head?, isKeywordChar c = false := by
    rwa [List.head?_reverse]
  have hrun : ∀ c ∈ left.reverse, isKeywordChar c = true := fun c hc =>
    hleft c (List.mem_reverse.1 hc)
  unfold keywordAt
  rw [if_neg (by dsimp only; omega)]
  simp only [Nat.add_sub_cancel_left, Text.cut_byteLength, bind, Except.bind, pure, Except.pure,
    List.reverse_append, takeWhile_stop hrun hstop, dropWhile_stop hrun hstop,
    takeWhile_stop hright hafter, List.reverse_reverse, Text.byteLength_reverse]
  split
  · rfl
  · rfl

/-- What stands before a cut and goes on to it. -/
theorem exists_left (text : Text) : ∃ before left, text = before ++ left ∧
    (∀ c ∈ left, isKeywordChar c = true) ∧ ∀ c ∈ before.getLast?, isKeywordChar c = false := by
  refine ⟨(text.reverse.dropWhile isKeywordChar).reverse,
    (text.reverse.takeWhile isKeywordChar).reverse, ?_, ?_, ?_⟩
  · rw [← List.reverse_append, List.takeWhile_append_dropWhile, List.reverse_reverse]
  · intro c hc
    exact List.all_eq_true.1 List.all_takeWhile c (List.mem_reverse.1 hc)
  · intro c hc
    rw [List.getLast?_reverse] at hc
    have := List.head?_dropWhile_not isKeywordChar text.reverse
    rw [hc] at this
    simpa using this

theorem exists_right (text : Text) : ∃ right after, text = right ++ after ∧
    (∀ c ∈ right, isKeywordChar c = true) ∧ ∀ c ∈ after.head?, isKeywordChar c = false := by
  refine ⟨text.takeWhile isKeywordChar, text.dropWhile isKeywordChar,
    List.takeWhile_append_dropWhile.symm, List.all_eq_true.1 List.all_takeWhile, ?_⟩
  intro c hc
  have := List.head?_dropWhile_not isKeywordChar text
  rw [hc] at this
  simpa using this

/-- A cut that touches a keyword cuts it into two runs. -/
theorem KeywordBetween.split {before after a b : Text} (h : value.KeywordBetween word before after)
    (hcut : value.chars = a ++ b)
    (htouch : word.span.touches (value.start + a.byteLength) = true) :
    ∃ left right, a = before ++ left ∧ b = right ++ after ∧ word.chars = left ++ right := by
  obtain ⟨hlo, hhi⟩ := Span.touches_iff.1 htouch
  have hlo : before.byteLength ≤ a.byteLength := by
    have : word.start ≤ value.start + a.byteLength := hlo
    rw [h.start_eq] at this
    omega
  have hhi : a.byteLength ≤ (before ++ word.chars).byteLength := by
    have : value.start + a.byteLength ≤ word.start + Text.byteLength word.chars := hhi
    rw [h.start_eq] at this
    rw [Text.byteLength_append]
    omega
  obtain ⟨left, rfl, hrest⟩ := Text.append_split (h.chars_eq.symm.trans hcut) hlo
  have hfront : (before ++ left) ++ b = (before ++ word.chars) ++ after := by
    rw [← hcut, h.chars_eq, List.append_assoc]
  obtain ⟨right, hword, hb⟩ := Text.append_split hfront hhi
  exact ⟨left, right, rfl, hb, List.append_cancel_left (by rw [hword, List.append_assoc])⟩

/-- **The keyword under the pointer** is the one that the pointer touches. -/
theorem keywordAt_spec {a b : Text} (hcut : value.chars = a ++ b) :
    ∃ found, value.keywordAt (value.start + a.byteLength) = .ok found ∧ ∀ word,
      found = some word ↔
        word.IsKeywordOf value ∧ word.span.touches (value.start + a.byteLength) = true := by
  obtain ⟨start, chars⟩ := value
  obtain rfl : chars = a ++ b := hcut
  obtain ⟨before, left, rfl, hleft, hbefore⟩ := exists_left a
  obtain ⟨right, after, rfl, hright, hafter⟩ := exists_right b
  refine ⟨_, keywordAt_split start hleft hright hbefore hafter, fun word => ⟨fun h => ?_, ?_⟩⟩
  · obtain ⟨hne, h⟩ := Option.ite_none_left_eq_some.1 h
    obtain rfl := Option.some.inj h
    refine ⟨⟨before, after, ?_⟩, Span.touches_iff.2 ?_⟩
    · exact {
        chars_eq := by simp
        start_eq := rfl
        ne_nil := fun hnil => hne (List.isEmpty_iff.2 hnil)
        run := List.forall_mem_append.2 ⟨hleft, hright⟩
        before_stop := hbefore
        after_stop := hafter }
    · simp only [span, stop, Text.byteLength_append]
      omega
  · rintro ⟨⟨before', after', h⟩, htouch⟩
    obtain ⟨left', right', ha, hb, hword⟩ := h.split rfl htouch
    -- The cut determines the keyword, so the other one is found, too.
    have hrun := h.run
    rw [hword] at hrun
    obtain ⟨hleft', hright'⟩ := List.forall_mem_append.1 hrun
    have hother := keywordAt_split start hleft' hright' h.before_stop h.after_stop
    rw [← hword, if_neg (by simp [h.ne_nil]), ← ha, ← hb,
      keywordAt_split start hleft hright hbefore hafter] at hother
    rw [Except.ok.inj hother, ← h.start_eq]

/-- An offset touches one keyword at most. -/
theorem IsKeywordOf.unique {word' : Fragment} {a b : Text} (hcut : value.chars = a ++ b)
    (h : word.IsKeywordOf value) (ht : word.span.touches (value.start + a.byteLength) = true)
    (h' : word'.IsKeywordOf value) (ht' : word'.span.touches (value.start + a.byteLength) = true) :
    word = word' := by
  obtain ⟨found, -, hfound⟩ := keywordAt_spec hcut
  exact Option.some.inj (((hfound word).2 ⟨h, ht⟩).symm.trans ((hfound word').2 ⟨h', ht'⟩))

theorem IsKeywordOf.start_le (h : word.IsKeywordOf value) : value.start ≤ word.start := by
  obtain ⟨before, after, h⟩ := h
  rw [h.start_eq]
  exact Nat.le_add_right _ _

theorem In.slice?_eq {text : Text} (h : value.In text) : slice? text value.span = some value := by
  rw [slice?, h.slice?_span]
  rfl

/-- An offset between two characters of a text cuts a part of it that it touches. -/
theorem In.exists_cut {text : Text} {offset : Nat} (h : value.In text)
    (ho : text.isBoundary offset = true) (ht : value.span.touches offset = true) :
    ∃ a b, value.chars = a ++ b ∧ offset = value.start + Text.byteLength a := by
  obtain ⟨before, after, rfl, hbefore⟩ := h
  obtain ⟨front, rest, heq, hfront⟩ := Text.isBoundary_iff.1 ho
  obtain ⟨hlo, hhi⟩ := Span.touches_iff.1 ht
  have hlo : before.byteLength ≤ front.byteLength := by
    rw [hbefore, hfront]
    exact hlo
  have hhi : front.byteLength ≤ (before ++ value.chars).byteLength := by
    rw [hfront, Text.byteLength_append, hbefore]
    exact hhi
  obtain ⟨b, hcut, -⟩ := Text.append_split heq.symm hhi
  rw [List.append_assoc] at heq
  obtain ⟨a, rfl, -⟩ := Text.append_split heq hlo
  rw [List.append_assoc, List.append_cancel_left_eq] at hcut
  refine ⟨a, b, hcut, ?_⟩
  rw [← hfront, Text.byteLength_append, hbefore]

/-- The keyword at an offset up to the end of a value: none before the value. -/
theorem In.keywordAt_spec {text : Text} {offset : Nat} (h : value.In text)
    (ho : text.isBoundary offset = true) (hle : offset ≤ value.stop) :
    ∃ found, value.keywordAt offset = .ok found ∧ ∀ word,
      found = some word ↔ word.IsKeywordOf value ∧ word.span.touches offset = true := by
  by_cases hlt : offset < value.start
  · refine ⟨none, by rw [keywordAt, if_pos hlt], fun word => ⟨nofun, ?_⟩⟩
    rintro ⟨hword, htouch⟩
    have hstart := hword.start_le
    have hword : word.start ≤ offset := (Span.touches_iff.1 htouch).1
    omega
  · obtain ⟨a, b, hcut, rfl⟩ :=
      h.exists_cut ho (Span.touches_iff.2 ⟨Nat.le_of_not_lt hlt, hle⟩)
    exact Fragment.keywordAt_spec hcut

end Fragment

/-! ## Hovers -/

theorem Text.range_holds (text : Text) {span : Span} {offset : Nat}
    (h : span.touches offset = true) : (text.range span).holds (text.position offset) = true := by
  obtain ⟨hlo, hhi⟩ := Span.touches_iff.1 h
  rw [Range.holds, Bool.and_eq_true]
  exact ⟨text.position_le hlo, text.position_le hhi⟩

/-- An offset on the value of a declaration is on the declaration, and not on its name. -/
theorem Declaration.Laid.touches_value {d : Declaration} (h : d.Laid) {offset : Nat}
    (ht : d.valueSpan.touches offset = true) :
    d.span.touches offset = true ∧ d.nameSpan.touches offset = false := by
  have hname := h.name_pos
  have hvalue := h.name_lt_value
  rw [Span.touches_iff] at ht
  refine ⟨?_, ?_⟩
  · rw [h.span_eq, Span.touches_iff]
    dsimp only
    omega
  · rw [← Bool.not_eq_true, Span.touches_iff]
    omega

namespace Sheet

/-- What is shown for a keyword of the value of a declaration: its description and its range. -/
def ShowsKeyword (s : Sheet) (r : Registry) (d : Declaration) (word : Fragment) (h : Hover) :
    Prop :=
  ∃ definition description, r.find? d.name = some definition ∧
    definition.keywordDocs.lookup word.text = some description ∧
    h = ⟨"`" ++ word.text ++ "`\n\n" ++ description, s.range word.span⟩

/-- What is found at an offset. -/
structure HoversAt (s : Sheet) (r : Registry) (offset : Nat) (found : Option Hover) : Prop where
  /-- What is shown is about the place under the pointer. -/
  covers : ∀ h ∈ found, h.range.holds (s.source.position offset) = true
  /-- Lines and columns are numbers of 32 bits. -/
  fits : ∀ h ∈ found, h.range.start.Fits ∧ h.range.stop.Fits
  /-- A declaration whose value is under the pointer is the one that is found. -/
  declaration : ∀ d ∈ s.declarations, d.valueSpan.touches offset = true →
    s.declarationAt? offset = some d
  /-- On its value, what is shown is about the keyword there, of which there is one at most:
      exactly when the property is known and the keyword is described. -/
  keyword : ∀ d ∈ s.declarationAt? offset, d.valueSpan.touches offset = true →
    ∃ value, Fragment.slice? s.source d.valueSpan = some value ∧
      (∀ word word' : Fragment, word.IsKeywordOf value → word.span.touches offset = true →
        word'.IsKeywordOf value → word'.span.touches offset = true → word = word') ∧
      ∀ h, found = some h ↔ ∃ word, word.IsKeywordOf value ∧ word.span.touches offset = true ∧
        s.ShowsKeyword r d word h

variable {text : Text} {d : Declaration} {r : Registry} {offset : Nat}

/-- The value of a declaration stands in the text. -/
theorem exists_value (hd : d ∈ (ofText text).declarations) :
    ∃ value : Fragment, value.In text ∧ d.valueSpan = value.span := by
  obtain ⟨statement, hs, hd⟩ := declaration_origin hd
  obtain ⟨-, ⟨value, hpart, -, hspan⟩, -⟩ := Declaration.ofFragment?_fragments hd
  exact ⟨value, hpart.in_text hs.in_text, hspan⟩

/-- **The hover on a value** up to its end. -/
theorem hoverValue_spec {s : Sheet} {value : Fragment} (hvalue : value.In s.source)
    (hspan : d.valueSpan = value.span) (ho : s.source.isBoundary offset = true)
    (hle : offset ≤ value.stop) :
    ∃ found, s.hoverValue r d offset = .ok found ∧ ∀ h, found = some h ↔
      ∃ word, word.IsKeywordOf value ∧ word.span.touches offset = true ∧
        s.ShowsKeyword r d word h := by
  obtain ⟨word?, hword, hspec⟩ := hvalue.keywordAt_spec ho hle
  rw [hoverValue, hspan, hvalue.slice?_eq]
  cases hfind : r.find? d.name with
  | none =>
    refine ⟨none, rfl, fun h => ⟨nofun, ?_⟩⟩
    rintro ⟨word, -, -, definition, description, hdef, -⟩
    rw [hfind] at hdef
    cases hdef
  | some definition =>
    refine ⟨word?.bind fun word => (definition.keywordDocumentation? word.text).map fun markdown =>
      ⟨markdown, s.range word.span⟩, ?_, fun h => ?_⟩
    · simp only [hword, bind, Except.bind, pure, Except.pure]
    rw [Option.bind_eq_some_iff]
    refine exists_congr fun word => ?_
    rw [hspec word, and_assoc, and_congr_right_iff]
    intro _
    rw [and_congr_right_iff]
    intro _
    simp only [ShowsKeyword, hfind, Definition.keywordDocumentation?, Option.map_map,
      Option.map_eq_some_iff, Option.some.injEq, exists_and_left, exists_eq_left', Function.comp]
    simp only [eq_comm]

/-- **What is shown at an offset** is about a span that it touches. -/
theorem hover_spec (r : Registry) (ho : text.isBoundary offset = true) :
    ∃ found, (ofText text).hover r offset = .ok found ∧
      ∀ h ∈ found, ∃ span, h.range = text.range span ∧ span.touches offset = true := by
  unfold hover
  cases hd : (ofText text).declarationAt? offset with
  | none =>
    refine ⟨_, rfl, fun h hh => ?_⟩
    obtain ⟨sel, hsel, rfl⟩ := Option.map_eq_some_iff.1 hh
    exact ⟨sel.span, rfl, (((ofText_findsAt text offset).selector.found_iff sel).1 hsel).2⟩
  | some d =>
    obtain ⟨hmem, htouch⟩ := ((declarationAt?_onlyAt text offset).found_iff d).1 hd
    dsimp only
    split
    · next hname =>
      refine ⟨_, rfl, fun h hh => ?_⟩
      obtain rfl := Option.some.inj hh
      exact ⟨d.nameSpan, rfl, hname⟩
    · obtain ⟨value, hvalue, hspan⟩ := exists_value hmem
      rw [(declaration_laid hmem).span_eq, hspan] at htouch
      obtain ⟨found, hfound, hspec⟩ :=
        hoverValue_spec (r := r) (s := ofText text) hvalue hspan ho (Span.touches_iff.1 htouch).2
      refine ⟨found, hfound, fun h hh => ?_⟩
      obtain ⟨word, -, hword, definition, description, -, -, rfl⟩ := (hspec h).1 hh
      exact ⟨word.span, rfl, hword⟩

/-- On a value, what is shown is the hover on the value. -/
theorem hover_value (r : Registry) (hat : (ofText text).declarationAt? offset = some d)
    (ht : d.valueSpan.touches offset = true) :
    (ofText text).hover r offset = (ofText text).hoverValue r d offset := by
  have hmem := (((declarationAt?_onlyAt text offset).found_iff d).1 hat).1
  obtain ⟨-, hname⟩ := (declaration_laid hmem).touches_value ht
  rw [hover, hat]
  dsimp only
  rw [hname]
  rfl

/-- **A hover covers the pointer and the whole keyword** under it. -/
theorem hover_exact {text : String} (hsize : Text.byteLength text.toList < UInt32.size)
    (r : Registry) (ho : Text.isBoundary text.toList offset = true) :
    ∃ found, (parse text).hover r offset = .ok found ∧ (parse text).HoversAt r offset found := by
  obtain ⟨found, hfound, hspan⟩ := hover_spec r ho
  refine ⟨found, hfound, ?_, ?_, ?_, ?_⟩
  · intro h hh
    obtain ⟨span, hrange, htouch⟩ := hspan h hh
    rw [hrange]
    exact Text.range_holds _ htouch
  · intro h hh
    obtain ⟨span, hrange, -⟩ := hspan h hh
    rw [hrange]
    exact Text.range_fits hsize span
  · intro d hd ht
    have htouch := ((declaration_laid hd).touches_value ht).1
    exact ((declarationAt?_onlyAt _ offset).found_iff d).2 ⟨hd, htouch⟩
  · intro d hat ht
    have heq := hover_value r hat ht
    have hd := (((declarationAt?_onlyAt _ offset).found_iff d).1 hat).1
    obtain ⟨value, hvalue, hvalueSpan⟩ := exists_value hd
    rw [hvalueSpan] at ht ⊢
    obtain ⟨a, b, hcut, rfl⟩ := hvalue.exists_cut ho ht
    obtain ⟨found', hfound', hspec⟩ :=
      hoverValue_spec (r := r) (s := parse text) hvalue hvalueSpan ho (Span.touches_iff.1 ht).2
    obtain rfl : found = found' := Except.ok.inj ((hfound.symm.trans heq).trans hfound')
    exact ⟨value, hvalue.slice?_eq, fun word word' h ht h' ht' => h.unique hcut ht h' ht', hspec⟩

/-- A property of one keyword that is described. -/
def oneKeyword : Registry :=
  ⟨[{ name := "😀", description := "", keywordDocs := [("b-1", "one")] }], none⟩

/-- Right behind the keyword it is still found; before the blank there is none. -/
theorem oneKeyword_hover :
    (∃ found, (parse "a\x7b😀:é b-1;\x7d").hover oneKeyword 13 = .ok found ∧
      (parse "a\x7b😀:é b-1;\x7d").HoversAt oneKeyword 13 found) ∧
    (parse "a\x7b😀:é b-1;\x7d").hover oneKeyword 13 =
      .ok (some ⟨"`b-1`\n\none", ⟨⟨0, 7⟩, ⟨0, 10⟩⟩⟩) ∧
    (parse "a\x7b😀:é b-1;\x7d").hover oneKeyword 9 = .ok none :=
  ⟨hover_exact (by decide) oneKeyword (by decide), by decide +kernel, by decide +kernel⟩

end Sheet

end StyleServer
