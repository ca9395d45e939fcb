/-
  Selectors, declarations and imports, read at the spans of a text.

  A statement is known by its span alone: each part of it is found by its offsets, and sliced
  out of the text again.

  * `trimSpan_eq`: the span of a trimmed part.
  * `selectorsIn_eq`: the selectors of a clause, cut at the offsets of its commas.
  * `declarationIn_eq`: the declaration of a segment.
  * `importIn_eq`: the import of a statement.

  Each of them says that no slice and no difference fails at the span of a fragment.
-/
import StyleServer.Proofs.Bytewise.Comments
import StyleServer.Proofs.Sheet.Statement

namespace StyleServer

open ValuePart (commentSpans)

/-! ## Trimming -/

/-- The span without the blanks at its ends. -/
def trimSpan (text : Text) (span : Span) : Checked Span := do
  let chars ← Checked.slice text span
  let front ← Checked.minus chars.byteLength (Text.byteLength (chars.dropWhile isBlank))
  let back ← Checked.minus chars.byteLength chars.trimEnd.byteLength
  let stop ← Checked.minus span.stop back
  return if stop ≤ span.start + front then .point (span.start + front)
    else ⟨span.start + front, stop⟩

/-- Blanks before a text that ends without them stay when those at its end are cut off. -/
theorem Text.trimEnd_append (before : Text) {chars after : Text} (h : Trimmed isBlank chars)
    (hafter : ∀ c ∈ after, isBlank c = true) :
    trimEnd (before ++ (chars ++ after)) = before ++ chars := by
  have hlast : ∀ c ∈ (before ++ chars).reverse.head?, isBlank c = false := by
    intro c hc
    rw [List.head?_reverse] at hc
    exact h.last_append before c hc
  rw [← List.append_assoc, trimEnd, List.reverse_append, dropWhile_stop _ hlast,
    List.reverse_reverse]
  intro c hc
  exact hafter c (List.mem_reverse.1 hc)

/-- A text of blanks is trimmed to nothing, at its end. -/
theorem Fragment.trim_of_blank {f : Fragment} (h : ∀ c ∈ f.chars, isBlank c = true) :
    f.chars.dropWhile isBlank = [] ∧ f.chars.trimEnd = [] ∧ f.trim = ⟨f.stop, []⟩ := by
  have htake := takeWhile_stop h (b := []) (by simp)
  have hdrop := dropWhile_stop h (b := []) (by simp)
  rw [List.append_nil] at htake hdrop
  have hback := dropWhile_stop (a := f.chars.reverse) (fun c hc => h c (List.mem_reverse.1 hc))
    (b := []) (by simp)
  rw [List.append_nil] at hback
  refine ⟨hdrop, by rw [Text.trimEnd, hback]; rfl, ?_⟩
  rw [trim, dropWhile, htake, hdrop]
  rfl

theorem trimSpan_eq {text : Text} {f : Fragment} (h : f.In text) :
    trimSpan text f.span = .ok f.trim.span := by
  obtain ⟨before, after, hchars, hstart, hbefore, hafter, htrimmed⟩ := f.trim_spec
  rw [trimSpan, Checked.slice_of_in h, Checked.ok_bind]
  by_cases hne : f.trim.chars = []
  · have hblank : ∀ c ∈ f.chars, isBlank c = true := by
      intro c hc
      rw [hchars, hne, List.nil_append] at hc
      rcases List.mem_append.1 hc with hc | hc
      · exact hbefore c hc
      · exact hafter c hc
    obtain ⟨hdrop, hend, htrim⟩ := Fragment.trim_of_blank hblank
    have hfront : Checked.minus f.chars.byteLength (Text.byteLength []) =
        .ok f.chars.byteLength := Checked.minus_of_le (Nat.zero_le _)
    have hstop : Checked.minus f.span.stop f.chars.byteLength = .ok f.start :=
      Checked.minus_add f.start f.chars.byteLength
    have hle : f.start ≤ f.span.start + f.chars.byteLength := Nat.le_add_right _ _
    rw [hdrop, hend, hfront, Checked.ok_bind, Checked.ok_bind, hstop, Checked.ok_bind,
      if_pos hle, htrim]
    rfl
  · have htrim := htrimmed hne
    have hdrop : f.chars.dropWhile isBlank = f.trim.chars ++ after := by
      rw [hchars, dropWhile_stop hbefore (htrim.first_append after)]
    have hend : f.chars.trimEnd = before ++ f.trim.chars := by
      rw [hchars, Text.trimEnd_append before htrim hafter]
    have hsize : f.chars.byteLength =
        before.byteLength + (f.trim.chars.byteLength + after.byteLength) := by
      rw [hchars, Text.byteLength_append, Text.byteLength_append]
    have hfront : Checked.minus f.chars.byteLength (Text.byteLength (f.trim.chars ++ after)) =
        .ok before.byteLength := by
      rw [hsize, Text.byteLength_append]
      exact Checked.minus_add _ _
    have hback : Checked.minus f.chars.byteLength (Text.byteLength (before ++ f.trim.chars)) =
        .ok after.byteLength := by
      rw [hsize, Text.byteLength_append, ← Nat.add_assoc, Nat.add_comm _ after.byteLength]
      exact Checked.minus_add _ _
    have hstop : Checked.minus f.span.stop after.byteLength = .ok f.trim.stop := by
      rw [Fragment.span, Fragment.stop, hsize, ← Nat.add_assoc, ← Nat.add_assoc, ← hstart]
      exact Checked.minus_add _ _
    have hlt : f.trim.start < f.trim.stop := by
      obtain ⟨c, cs, hcs⟩ := List.exists_cons_of_ne_nil hne
      rw [Fragment.stop, hcs]
      exact Nat.lt_add_of_pos_right (Nat.lt_of_lt_of_le c.utf8Size_pos (Nat.le_add_right _ _))
    rw [hdrop, hend, hfront, Checked.ok_bind, hback, Checked.ok_bind, hstop, Checked.ok_bind]
    show Except.ok (if f.trim.stop ≤ f.start + before.byteLength then _ else _) = _
    rw [← hstart, if_neg (Nat.not_le.2 hlt)]
    show Except.ok (⟨f.start + before.byteLength, f.trim.stop⟩ : Span) = _
    rw [← hstart]
    rfl

/-! ## Selectors -/

/-- The selector at the span of a part of a clause. -/
def selectorIn (text : Text) (span : Span) : Checked (Option Selector) := do
  let chars ← Checked.slice text span
  match chars with
  | [] => return none
  | c :: _ =>
    let kind := Selector.kindOf c
    let rest ← match kind with
      | .styleClass | .id | .universal => Checked.sliceFrom chars 1
      | .pseudo => .ok (chars.dropWhile (· == ':'))
      | .element => .ok chars
    let name := match kind with
      | .universal => ['*']
      | .styleClass | .id | .pseudo | .element => rest.takeWhile isNameChar
    return if name.isEmpty then none
      else some ⟨kind, String.ofList name, String.ofList chars, span⟩

/-- The selector of a part of a clause. -/
def selectorOf (text : Text) (part : Span) : Checked (Option Selector) := do
  let span ← trimSpan text part
  selectorIn text span

/-- The selectors of the parts that begin at `start` and end at each of the offsets. -/
def selectorsFrom (text : Text) (start : Nat) : List Nat → Checked (List Selector)
  | [] => .ok []
  | stop :: stops => do
    let selector ← selectorOf text ⟨start, stop⟩
    let selectors ← selectorsFrom text (stop + 1) stops
    return selector.toList ++ selectors

/-- The selectors of a clause. -/
def selectorsIn (text : Text) (clause : Span) : Checked (List Selector) := do
  let chars ← Checked.slice text clause
  selectorsFrom text clause.start
    ((chars.indicesOf ',').map (clause.start + ·) ++ [clause.stop])

/-- A sign before a name is one byte. -/
theorem Selector.utf8Size_of_kindOf {c : Char} (h : kindOf c ≠ .element) : c.utf8Size = 1 := by
  unfold kindOf at h
  split at h
  · next hc => rw [hc]; rfl
  split at h
  · next hc => rw [hc]; rfl
  split at h
  · next hc => rw [hc]; rfl
  split at h
  · next hc => rw [hc]; rfl
  · exact absurd rfl h

theorem selectorIn_eq {text : Text} {f : Fragment} (h : f.In text) :
    selectorIn text f.span = .ok (Selector.ofFragment? f) := by
  rw [selectorIn, Checked.slice_of_in h, Checked.ok_bind, Selector.ofFragment?]
  cases hchars : f.chars with
  | nil => rfl
  | cons c cs =>
    -- The sign before a name is one byte, so that the rest can be sliced.
    have hrest : Selector.kindOf c ≠ .element → Checked.sliceFrom (c :: cs) 1 = .ok cs := by
      intro hkind
      have hslice := Checked.sliceFrom_append [c] cs
      rwa [Text.byteLength_cons, Text.byteLength_nil, Nat.add_zero,
        Selector.utf8Size_of_kindOf hkind] at hslice
    dsimp only
    cases hkind : Selector.kindOf c with
    | element | pseudo => rw [Fragment.text, hchars]; rfl
    | styleClass | id | universal =>
      rw [Fragment.text, hchars, hrest (by rw [hkind]; nofun)]
      rfl

theorem selectorOf_eq {text : Text} {f : Fragment} (h : f.In text) :
    selectorOf text f.span = .ok (Selector.ofFragment? f.trim) := by
  rw [selectorOf, trimSpan_eq h, Checked.ok_bind]
  exact selectorIn_eq ((Fragment.trim_partOf f).in_text h)

theorem selectorsFrom_cons {text : Text} {f : Fragment} (h : f.In text) {stops : List Nat}
    {fs : List Fragment} (hrest : selectorsFrom text (f.stop + 1) stops =
      .ok (fs.filterMap fun f => Selector.ofFragment? f.trim)) :
    selectorsFrom text f.start (f.stop :: stops) =
      .ok ((f :: fs).filterMap fun f => Selector.ofFragment? f.trim) := by
  rw [selectorsFrom, show selectorOf text ⟨f.start, f.stop⟩ = _ from selectorOf_eq h,
    Checked.ok_bind, hrest, Checked.ok_bind, List.filterMap_cons]
  cases Selector.ofFragment? f.trim <;> rfl

/-- The offsets behind the first character, counted from further back. -/
theorem Text.map_indicesOf_cons (sep c : Char) (cs : Text) (n : Nat) :
    (indicesOf sep (c :: cs)).map (n + ·) =
      (if c = sep then [n] else []) ++ (indicesOf sep cs).map (n + c.utf8Size + ·) := by
  have hmap : ((indicesOf sep cs).map (c.utf8Size + ·)).map (n + ·) =
      (indicesOf sep cs).map (n + c.utf8Size + ·) := by
    rw [List.map_map]
    exact List.map_congr_left fun i _ => (Nat.add_assoc n c.utf8Size i).symm
  rw [indicesOf]
  split
  · rw [List.map_cons, hmap]
    rfl
  · exact hmap

/-- The parts of a clause end at its commas. -/
theorem selectorsFrom_eq {text after cs : Text} (before part : Text)
    (h : text = before ++ (part ++ (cs ++ after))) (hpart : ∀ c ∈ part, c ≠ ',') :
    selectorsFrom text before.byteLength
        ((Text.indicesOf ',' cs).map ((before ++ part).byteLength + ·) ++
          [(before ++ part ++ cs).byteLength]) =
      .ok ((Fragment.splitFrom ',' before.byteLength (part ++ cs)).filterMap
        fun f => Selector.ofFragment? f.trim) := by
  induction cs generalizing before part with
  | nil =>
    have hin : (⟨before.byteLength, part⟩ : Fragment).In text :=
      ⟨before, [] ++ after, by rw [h, List.append_assoc], rfl⟩
    rw [List.append_nil, List.append_nil, Fragment.splitFrom_single hpart, Text.byteLength_append]
    exact selectorsFrom_cons hin rfl
  | cons c cs ih =>
    by_cases hc : c = ','
    · -- The part ends here, and the next one begins behind the comma.
      subst hc
      have hin : (⟨before.byteLength, part⟩ : Fragment).In text :=
        ⟨before, ',' :: cs ++ after, by rw [h, List.append_assoc], rfl⟩
      have hbehind : (before ++ part ++ [',']).byteLength =
          before.byteLength + part.byteLength + 1 := by
        rw [Text.byteLength_append, Text.byteLength_append]
        rfl
      have ih := ih (before ++ part ++ [',']) [] (by simp [h]) (by simp)
      rw [List.append_nil, List.nil_append, hbehind] at ih
      have hstop : (before ++ part ++ ',' :: cs).byteLength =
          (before ++ part ++ [','] ++ cs).byteLength := by simp
      rw [Text.map_indicesOf_cons, if_pos rfl, Fragment.splitFrom_sep hpart, hstop,
        Text.byteLength_append before part]
      exact selectorsFrom_cons hin ih
    · have hpart' : ∀ d ∈ part ++ [c], d ≠ ',' := by
        intro d hd
        rcases List.mem_append.1 hd with hd | hd
        · exact hpart d hd
        · rw [List.mem_singleton.1 hd]; exact hc
      have ih := ih before (part ++ [c]) (by simp [h]) hpart'
      have hcons : part ++ [c] ++ cs = part ++ c :: cs := by simp
      have hstop : (before ++ (part ++ [c]) ++ cs).byteLength =
          (before ++ part ++ c :: cs).byteLength := by simp
      have hbehind : (before ++ (part ++ [c])).byteLength =
          (before ++ part).byteLength + c.utf8Size := by
        simp [Nat.add_assoc]
      rw [hcons, hstop, hbehind] at ih
      rw [Text.map_indicesOf_cons, if_neg hc]
      exact ih

/-- **The selectors of a clause.** -/
theorem selectorsIn_eq {text : Text} {f : Fragment} (h : f.In text) :
    selectorsIn text f.span = .ok (Selector.listOf f) := by
  rw [selectorsIn, Checked.slice_of_in h, Checked.ok_bind]
  obtain ⟨before, after, htext, hstart⟩ := h
  have hparts : text = before ++ ([] ++ (f.chars ++ after)) := by
    rw [htext, List.append_assoc]
    rfl
  have hlist := selectorsFrom_eq before [] hparts (by simp)
  rw [List.append_nil, List.nil_append, Text.byteLength_append, hstart] at hlist
  exact hlist

/-! ## Declarations -/

/-- The references that lie in none of the comments of a value that begins at `start`. -/
def refsOutside (start : Nat) (comments : List Span) :
    List VariableRef → Checked (List VariableRef)
  | [] => .ok []
  | ref :: refs => do
    let first ← Checked.minus ref.span.start start
    let last ← Checked.minus ref.span.stop start
    let rest ← refsOutside start comments refs
    return if comments.any (·.holds ⟨first, last⟩) then rest else ref :: rest

/-- The declaration of a segment. -/
def declarationIn (text : Text) (segment : Span) : Checked (Option Declaration) := do
  let chars ← Checked.slice text segment
  match chars.find? [':'] with
  | none => return none
  | some i =>
    let nameSpan ← trimSpan text ⟨segment.start, segment.start + i⟩
    if nameSpan.isEmpty then return none
    else
      let valueSpan ← trimSpan text ⟨segment.start + i + 1, segment.stop⟩
      let name ← Checked.slice text nameSpan
      let value ← Checked.slice text valueSpan
      let comments ← commentSpansIn value
      let stripped ← stripComments value comments
      let refs ← refsOutside valueSpan.start comments (variableRefs value valueSpan.start)
      return some ⟨String.ofList name, String.ofList stripped, refs, nameSpan, valueSpan,
        nameSpan.cover valueSpan⟩

/-- The import of a statement. -/
def importIn (text : Text) (statement : Span) : Checked (Option Import) := do
  let chars ← Checked.slice text statement
  return Import.ofFragment? ⟨statement.start, chars⟩

theorem importIn_eq {text : Text} {f : Fragment} (h : f.In text) :
    importIn text f.span = .ok (Import.ofFragment? f) := by
  rw [importIn, Checked.slice_of_in h]
  rfl

theorem refsOutside_eq {start : Nat} (comments : List Span) {refs : List VariableRef}
    (h : ∀ ref ∈ refs, start ≤ ref.span.start ∧ start ≤ ref.span.stop) :
    refsOutside start comments refs =
      .ok (refs.filter fun ref => !(comments.map (Span.shift start)).any (·.holds ref.span)) := by
  induction refs with
  | nil => rfl
  | cons ref refs ih =>
    obtain ⟨⟨hfirst, hlast⟩, hrest⟩ := List.forall_mem_cons.1 h
    have hspan : ref.span = Span.shift start ⟨ref.span.start - start, ref.span.stop - start⟩ := by
      rw [Span.shift, Nat.sub_add_cancel hfirst, Nat.sub_add_cancel hlast]
    have hholds : (comments.map (Span.shift start)).any (·.holds ref.span) =
        comments.any (·.holds ⟨ref.span.start - start, ref.span.stop - start⟩) := by
      rw [List.any_map]
      refine congrArg comments.any (funext fun s => ?_)
      have hshift := Span.holds_shift start s ⟨ref.span.start - start, ref.span.stop - start⟩
      rwa [← hspan] at hshift
    rw [refsOutside, Checked.minus_of_le hfirst, Checked.ok_bind, Checked.minus_of_le hlast,
      Checked.ok_bind, ih hrest, Checked.ok_bind, List.filter_cons, hholds]
    cases comments.any (·.holds ⟨ref.span.start - start, ref.span.stop - start⟩) <;> rfl

theorem Fragment.isEmpty_span (f : Fragment) : f.span.isEmpty = f.chars.isEmpty := by
  rw [Bool.eq_iff_iff, List.isEmpty_iff, Span.isEmpty, beq_iff_eq]
  constructor
  · intro h
    cases hchars : f.chars with
    | nil => rfl
    | cons c cs =>
      have hc := c.utf8Size_pos
      simp only [span, stop, hchars, Text.byteLength_cons] at h
      omega
  · intro h
    simp [span, stop, h]

/-- The references that are kept are those outside of comments. -/
theorem refsOutside_refsOf (value : Fragment) :
    refsOutside value.span.start (commentSpans 0 (valueParts value.chars))
      (variableRefs value.chars value.span.start) = .ok (Declaration.refsOf value) := by
  have hinside : ∀ ref ∈ variableRefs value.chars value.start,
      value.start ≤ ref.span.start ∧ value.start ≤ ref.span.stop := by
    intro ref href
    obtain ⟨hstart, hlt, -⟩ := variableRefsFrom_inside _ _ _ ref href
    exact ⟨hstart, by omega⟩
  have hshift := ValuePart.commentSpans_shift value.start 0 (valueParts value.chars)
  rw [Nat.zero_add] at hshift
  rw [Fragment.span, refsOutside_eq _ hinside, ← hshift]
  rfl

/-- **The declaration of a segment.** -/
theorem declarationIn_eq {text : Text} {f : Fragment} (h : f.In text) :
    declarationIn text f.span = .ok (Declaration.ofFragment? f) := by
  rw [declarationIn, Checked.slice_of_in h, Checked.ok_bind, Text.find?_char,
    Declaration.ofFragment?]
  by_cases hcolon : ':' ∈ f.chars
  · obtain ⟨before, behind, hchars, hfirst⟩ := List.eq_append_cons_of_mem hcolon
    have hne : ∀ c ∈ before, c ≠ ':' := by
      rintro c hc rfl
      exact hfirst hc
    have htake : f.chars.takeWhile (· != ':') = before := by
      rw [hchars]
      exact takeWhile_stop (fun c hc => by simpa using hne c hc) (by simp)
    have hcut := Fragment.cutAt_sep hne f.start behind
    rw [← hchars] at hcut
    obtain ⟨hname, hvalue, -⟩ := Fragment.cutAt_eq_some hcut
    have hnameIn := hname.in_text h
    have hvalueIn := hvalue.in_text h
    have hvalueSpan : (⟨f.start + Text.byteLength before + 1, f.stop⟩ : Span) =
        Fragment.span ⟨f.start + Text.byteLength before + ':'.utf8Size, behind⟩ := by
      rw [Fragment.stop, hchars, Text.byteLength_append, Text.byteLength_cons, ← Nat.add_assoc,
        ← Nat.add_assoc]
      rfl
    have htrim : trimSpan text ⟨f.start, f.start + Text.byteLength before⟩ = .ok _ :=
      trimSpan_eq hnameIn
    rw [if_pos hcolon, htake, hcut]
    dsimp only
    rw [show f.span.start = f.start from rfl, htrim, Checked.ok_bind, Fragment.isEmpty_span]
    split
    · rfl
    · rw [show f.span.stop = f.stop from rfl, hvalueSpan, trimSpan_eq hvalueIn, Checked.ok_bind,
        Checked.slice_of_in ((Fragment.trim_partOf _).in_text hnameIn), Checked.ok_bind,
        Checked.slice_of_in ((Fragment.trim_partOf _).in_text hvalueIn), Checked.ok_bind,
        commentSpansIn_eq, Checked.ok_bind, stripComments_eq, Checked.ok_bind, refsOutside_refsOf]
      rfl
  · rw [if_neg hcolon, Fragment.cutAt_eq_none hcolon]
    rfl

end StyleServer
