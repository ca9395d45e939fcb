/-
  Where the parts of a statement stand.

  * Selectors stand in their clause, with a comma between two of them.
  * `Declaration.Laid`: the name of a declaration, its value behind the name, and the
    references inside the value.
  * All of them move with their statement (`shift`), and so do imports.
-/
import StyleServer.Proofs.Text.Fragment
import StyleServer.Sheet.Declaration
import StyleServer.Sheet.Import
import StyleServer.Sheet.Selector
import Mathlib.Data.List.Basic

namespace StyleServer

/-! ## Selectors -/

namespace Selector

/-- A selector is the fragment that it is read from. -/
theorem ofFragment?_fragment {f : Fragment} {s : Selector} (h : ofFragment? f = some s) :
    s.text = f.text ∧ s.span = f.span ∧ f.chars ≠ [] := by
  unfold ofFragment? at h
  split at h
  · simp at h
  · next c cs hc =>
    dsimp only at h
    split at h
    · simp at h
    · simp only [Option.some.injEq] at h
      subst h
      exact ⟨rfl, rfl, by simp [hc]⟩

theorem ofFragment?_eq_some {f : Fragment} {s : Selector} (h : ofFragment? f = some s) :
    s.span = f.span ∧ f.chars ≠ [] := (ofFragment?_fragment h).2

/-- A selector stands in its clause and is not empty. -/
theorem listOf_holds {clause : Fragment} {s : Selector} (h : s ∈ listOf clause) :
    clause.span.holds s.span = true ∧ s.span.start < s.span.stop := by
  obtain ⟨part, hpart, hs⟩ := List.mem_filterMap.1 h
  obtain ⟨hspan, hne⟩ := ofFragment?_eq_some hs
  have hin := (Fragment.trim_partOf part).trans (Fragment.splitOn_partOf hpart)
  have hpos := Text.byteLength_pos hne
  rw [hspan, Span.holds_iff]
  refine ⟨⟨hin.start_le, hin.stop_le⟩, ?_⟩
  simp only [Fragment.span, Fragment.stop]
  omega

/-- A comma stands between two selectors. -/
theorem listOf_pairwise (clause : Fragment) :
    (listOf clause).Pairwise fun s t => s.span.stop < t.span.start := by
  refine List.Pairwise.filterMap _ ?_ (Fragment.splitOn_pairwise ',' clause)
  intro f g hfg s hs t ht
  rw [(ofFragment?_eq_some hs).1, (ofFragment?_eq_some ht).1]
  have hf := (Fragment.trim_partOf f).stop_le
  have hg := (Fragment.trim_partOf g).start_le
  simp only [Fragment.span]
  omega

/-- The selector `n` bytes further back. -/
def shift (n : Nat) (s : Selector) : Selector := { s with span := s.span.shift n }

theorem ofFragment?_shift (n : Nat) (f : Fragment) :
    ofFragment? (f.shift n) = (ofFragment? f).map (shift n) := by
  unfold ofFragment?
  rw [Fragment.shift_chars]
  cases f.chars with
  | nil => rfl
  | cons c cs =>
    dsimp only
    split
    · rfl
    · simp [shift]

theorem listOf_shift (n : Nat) (clause : Fragment) :
    listOf (clause.shift n) = (listOf clause).map (shift n) := by
  simp only [listOf, Fragment.shift_splitOn, List.filterMap_map, List.map_filterMap]
  congr 1
  funext part
  simp only [Function.comp_apply, Fragment.shift_trim, ofFragment?_shift]

end Selector

/-! ## References -/

section
variable {inWord : Bool} {offset : Nat} {c : Char} {cs : Text}

theorem variableRefsFrom_some {opening name rest : Text}
    (h : (if inWord = true then none else referenceAt? (c :: cs)) = some (opening, name, rest)) :
    variableRefsFrom inWord offset (c :: cs) =
      ⟨String.ofList name, ⟨offset + opening.byteLength,
          offset + opening.byteLength + name.byteLength⟩⟩ ::
        variableRefsFrom ((name.getLast?.map isWordChar).getD false)
          (offset + opening.byteLength + name.byteLength) rest := by
  rw [variableRefsFrom]
  split
  · next heq => rw [h] at heq; cases heq; rfl
  · next heq => rw [h] at heq; cases heq

theorem variableRefsFrom_none
    (h : (if inWord = true then none else referenceAt? (c :: cs)) = none) :
    variableRefsFrom inWord offset (c :: cs) =
      variableRefsFrom (isWordChar c) (offset + c.utf8Size) cs := by
  rw [variableRefsFrom]
  split
  · next heq => rw [h] at heq; cases heq
  · rfl

/-- A reference takes its place in the text, and its name is not empty. -/
theorem byteLength_reference {opening name rest : Text}
    (h : (if inWord = true then none else referenceAt? (c :: cs)) = some (opening, name, rest)) :
    Text.byteLength (c :: cs) = opening.byteLength + name.byteLength + rest.byteLength ∧
      0 < name.byteLength := by
  split at h
  · simp at h
  · refine ⟨by rw [referenceAt?_append h]; simp [Nat.add_assoc], Text.byteLength_pos ?_⟩
    have := referenceAt?_name_length h
    exact List.ne_nil_of_length_pos (by omega)

end

/-- A reference is not empty and stands in the text. -/
theorem variableRefsFrom_inside (inWord : Bool) (offset : Nat) (text : Text) :
    ∀ ref ∈ variableRefsFrom inWord offset text, offset ≤ ref.span.start ∧
      ref.span.start < ref.span.stop ∧ ref.span.stop ≤ offset + text.byteLength := by
  induction inWord, offset, text using variableRefsFrom.induct with
  | case1 => simp [variableRefsFrom]
  | case2 inWord offset c cs opening name rest h start stop ih =>
    simp only [dite_eq_ite] at h
    obtain ⟨hlen, hpos⟩ := byteLength_reference h
    rw [variableRefsFrom_some h]
    intro ref href
    rcases List.mem_cons.1 href with rfl | href
    · dsimp only
      omega
    · have := ih ref href
      omega
  | case3 inWord offset c cs h ih =>
    simp only [dite_eq_ite] at h
    rw [variableRefsFrom_none h]
    intro ref href
    have := ih ref href
    simp only [Text.byteLength_cons]
    omega

theorem variableRefsFrom_pairwise (inWord : Bool) (offset : Nat) (text : Text) :
    (variableRefsFrom inWord offset text).Pairwise fun r s => r.span.stop ≤ s.span.start := by
  induction inWord, offset, text using variableRefsFrom.induct with
  | case1 => simp [variableRefsFrom]
  | case2 inWord offset c cs opening name rest h start stop ih =>
    simp only [dite_eq_ite] at h
    rw [variableRefsFrom_some h]
    exact List.pairwise_cons.2 ⟨fun s hs => (variableRefsFrom_inside _ _ _ s hs).1, ih⟩
  | case3 inWord offset c cs h ih =>
    simp only [dite_eq_ite] at h
    rw [variableRefsFrom_none h]
    exact ih

/-- The reference `n` bytes further back. -/
def VariableRef.shift (n : Nat) (r : VariableRef) : VariableRef := { r with span := r.span.shift n }

theorem variableRefsFrom_shift (n : Nat) (inWord : Bool) (offset : Nat) (text : Text) :
    variableRefsFrom inWord (offset + n) text =
      (variableRefsFrom inWord offset text).map (VariableRef.shift n) := by
  induction inWord, offset, text using variableRefsFrom.induct with
  | case1 => simp [variableRefsFrom]
  | case2 inWord offset c cs opening name rest h start stop ih =>
    simp only [dite_eq_ite] at h
    have hstart : offset + n + opening.byteLength = start + n := by omega
    have hstop : start + n + name.byteLength = stop + n := by omega
    rw [variableRefsFrom_some h, variableRefsFrom_some h, hstart, hstop, ih]
    rfl
  | case3 inWord offset c cs h ih =>
    simp only [dite_eq_ite] at h
    have hnext : offset + n + c.utf8Size = offset + c.utf8Size + n := by omega
    rw [variableRefsFrom_none h, variableRefsFrom_none h, hnext, ih]

/-! ## Declarations -/

namespace ValuePart

theorem commentSpans_shift (n offset : Nat) (parts : List ValuePart) :
    commentSpans (offset + n) parts = (commentSpans offset parts).map (Span.shift n) := by
  induction parts generalizing offset with
  | nil => rfl
  | cons p ps ih =>
    have hstop : offset + n + Text.byteLength p.chars = offset + Text.byteLength p.chars + n := by
      omega
    simp only [commentSpans, hstop, ih]
    split <;> rfl

end ValuePart

namespace Declaration

/-- The name, the value behind it, and the references inside the value. -/
structure Laid (d : Declaration) : Prop where
  name_pos : d.nameSpan.start < d.nameSpan.stop
  name_lt_value : d.nameSpan.stop < d.valueSpan.start
  value_le : d.valueSpan.start ≤ d.valueSpan.stop
  span_eq : d.span = ⟨d.nameSpan.start, d.valueSpan.stop⟩
  refs_inside : ∀ r ∈ d.refs, d.valueSpan.holds r.span = true ∧ r.span.start < r.span.stop
  refs_ordered : d.refs.Pairwise fun r s => r.span.stop ≤ s.span.start

theorem refsOf_sublist (value : Fragment) :
    (refsOf value).Sublist (variableRefsFrom false value.start value.chars) :=
  List.filter_sublist

/-- The declaration with the name `name` and the value `value`. -/
def ofParts (name value : Fragment) : Declaration where
  name := name.text
  value := String.ofList (withoutComments value.chars)
  refs := refsOf value
  nameSpan := name.span
  valueSpan := value.span
  span := name.span.cover value.span

/-- A declaration has its name before the first colon and its value behind it. -/
theorem ofFragment?_parts {f : Fragment} {d : Declaration} (h : ofFragment? f = some d) :
    ∃ before behind, f.cutAt ':' = some (before, behind) ∧ before.trim.chars ≠ [] ∧
      d = ofParts before.trim behind.trim := by
  unfold ofFragment? at h
  split at h
  · simp at h
  · next before behind hcut =>
    dsimp only at h
    split at h
    · simp at h
    · next hne =>
      exact ⟨before, behind, hcut, fun h => hne (List.isEmpty_iff.2 h), (Option.some.inj h).symm⟩

/-- **A declaration is laid out in its statement.** -/
theorem ofFragment?_laid {f : Fragment} {d : Declaration} (h : ofFragment? f = some d) :
    d.Laid ∧ f.span.holds d.span = true := by
  obtain ⟨before, behind, hcut, hne, rfl⟩ := ofFragment?_parts h
  obtain ⟨hbefore, hbehind, hlt⟩ := Fragment.cutAt_eq_some hcut
  have hname := Fragment.trim_partOf before
  have hvalue := Fragment.trim_partOf behind
  have hpos : before.trim.start < before.trim.stop := by
    have := Text.byteLength_pos hne
    simp only [Fragment.stop]
    omega
  have hlt : before.trim.stop < behind.trim.start :=
    Nat.lt_of_le_of_lt hname.stop_le (Nat.lt_of_lt_of_le hlt hvalue.start_le)
  have hle : behind.trim.start ≤ behind.trim.stop := Nat.le_add_right ..
  have hspan : before.trim.span.cover behind.trim.span =
      ⟨before.trim.start, behind.trim.stop⟩ := by
    simp only [Span.cover, Fragment.span, Span.mk.injEq]
    omega
  refine ⟨⟨hpos, hlt, hle, hspan, fun r hr => ?_, ?_⟩, ?_⟩
  · have := variableRefsFrom_inside _ _ _ r ((refsOf_sublist _).subset hr)
    exact ⟨Span.holds_iff.2 ⟨this.1, this.2.2⟩, this.2.1⟩
  · exact (variableRefsFrom_pairwise _ _ _).sublist (refsOf_sublist _)
  · rw [ofParts, hspan, Span.holds_iff]
    exact ⟨(hname.trans hbefore).start_le, (hvalue.trans hbehind).stop_le⟩

/-- The declaration `n` bytes further back. -/
def shift (n : Nat) (d : Declaration) : Declaration :=
  { d with
    refs := d.refs.map (VariableRef.shift n)
    nameSpan := d.nameSpan.shift n
    valueSpan := d.valueSpan.shift n
    span := d.span.shift n }

theorem refsOf_shift (n : Nat) (value : Fragment) :
    refsOf (value.shift n) = (refsOf value).map (VariableRef.shift n) := by
  simp only [refsOf, variableRefs, Fragment.shift_start, Fragment.shift_chars,
    variableRefsFrom_shift, ValuePart.commentSpans_shift, List.filter_map, List.any_map]
  congr 2
  funext ref
  simp only [Function.comp_def, VariableRef.shift, Span.holds_shift]

theorem ofFragment?_shift (n : Nat) (f : Fragment) :
    ofFragment? (f.shift n) = (ofFragment? f).map (shift n) := by
  unfold ofFragment?
  rw [Fragment.shift_cutAt]
  cases f.cutAt ':' with
  | none => rfl
  | some parts =>
    obtain ⟨before, behind⟩ := parts
    simp only [Option.map_some, Fragment.shift_trim, Fragment.shift_chars]
    split
    · rfl
    · simp only [Option.map_some, shift, Fragment.shift_text, Fragment.shift_span, refsOf_shift,
        Span.cover_shift]

end Declaration

/-! ## Imports -/

theorem Fragment.shift_behind? (n : Nat) (literal : Text) (f : Fragment) :
    (f.shift n).behind? literal = (f.behind? literal).map (shift n) := by
  unfold behind?
  rw [shift_chars]
  cases literal.isPrefixOf? f.chars with
  | none => rfl
  | some rest =>
    simp only [Option.map_some, shift, Option.some.injEq, Fragment.mk.injEq, and_true]
    omega

theorem Fragment.behind?_eq {literal : Text} {f g : Fragment} (h : f.behind? literal = some g) :
    f.chars = literal ++ g.chars ∧ g.start = f.start + Text.byteLength literal := by
  obtain ⟨rest, hrest, rfl⟩ := Option.map_eq_some_iff.1 h
  exact ⟨(List.isPrefixOf?_eq_some_iff_append_eq.1 hrest).symm, rfl⟩

theorem Fragment.behind?_partOf {literal : Text} {f g : Fragment}
    (h : f.behind? literal = some g) : g.PartOf f := by
  obtain ⟨hc, hs⟩ := behind?_eq h
  exact ⟨literal, [], by simp [hc], hs⟩

namespace Import

/-- The import `n` bytes further back. -/
def shift (n : Nat) (i : Import) : Import :=
  { i with span := i.span.shift n, pathSpan := i.pathSpan.shift n }

theorem urlOpening?_shift (n : Nat) (f : Fragment) :
    urlOpening? (f.shift n) = (urlOpening? f).map (Fragment.shift n) := by
  unfold urlOpening?
  rw [Fragment.shift_behind?]
  cases f.behind? ['u', 'r', 'l'] with
  | none => rfl
  | some word =>
    simp only [Option.map_some, Option.bind_eq_bind, Option.bind_some, Fragment.shift_dropWhile,
      Fragment.shift_behind?]
    cases (word.dropWhile isBlank).behind? ['('] with
    | none => rfl
    | some paren => simp only [Option.map_some, Option.bind_some, Fragment.shift_dropWhile]; rfl

theorem quoted?_shift (n : Nat) (quote : Char) (f : Fragment) :
    quoted? quote (f.shift n) =
      (quoted? quote f).map fun (path, rest) => (path.shift n, rest.shift n) := by
  unfold quoted?
  rw [Fragment.shift_behind?]
  cases f.behind? [quote] with
  | none => rfl
  | some inside =>
    simp only [Option.map_some, Option.bind_eq_bind, Option.bind_some, Fragment.shift_dropWhile,
      Fragment.shift_takeWhile, Fragment.shift_behind?, Fragment.shift_chars]
    cases (inside.dropWhile (· != quote)).behind? [quote] with
    | none => rfl
    | some rest =>
      by_cases he : (inside.takeWhile (· != quote)).chars.isEmpty = true
      · simp [he]
      · simp [he]

/-- The path of a directive and what follows it, behind the opening of an address if there
    is one. -/
def path? (f : Fragment) : Option (Fragment × Fragment) := (quoted? '"' f).or (quoted? '\'' f)

theorem path?_shift (n : Nat) (f : Fragment) :
    path? (f.shift n) = (path? f).map fun (path, rest) => (path.shift n, rest.shift n) := by
  simp only [path?, quoted?_shift]
  cases quoted? '"' f <;> rfl

/-- The import of a statement, when `rest` follows its path. -/
def finish? (statement : Fragment) (isUrl : Bool) (path rest : Fragment) : Option Import :=
  let rest := rest.dropWhile isBlank
  let closing := rest.behind? [')']
  let rest := (closing.getD rest).dropWhile isBlank
  if rest.chars = [';'] ∧ isUrl = closing.isSome then
    some ⟨path.text, isUrl, statement.span, path.span⟩
  else none

theorem finish?_shift (n : Nat) (f : Fragment) (isUrl : Bool) (path rest : Fragment) :
    finish? (f.shift n) isUrl (path.shift n) (rest.shift n) =
      (finish? f isUrl path rest).map (shift n) := by
  simp only [finish?, Fragment.shift_dropWhile, Fragment.shift_behind?]
  cases (rest.dropWhile isBlank).behind? [')'] with
  | none =>
    simp only [Option.map_none, Option.getD_none, Fragment.shift_dropWhile, Fragment.shift_chars]
    split <;> simp [shift]
  | some closing =>
    simp only [Option.map_some, Option.getD_some, Fragment.shift_dropWhile, Fragment.shift_chars]
    split <;> simp_all [shift]

/-- A directive is read part by part. -/
theorem ofFragment?_eq (f : Fragment) :
    ofFragment? f =
      (f.behind? ['@', 'i', 'm', 'p', 'o', 'r', 't']).bind fun keyword =>
        let argument := keyword.dropWhile isBlank
        if argument.start = keyword.start then none
        else (path? ((urlOpening? argument).getD argument)).bind fun (path, rest) =>
          finish? f (urlOpening? argument).isSome path rest := by
  unfold ofFragment?
  cases f.behind? ['@', 'i', 'm', 'p', 'o', 'r', 't'] with
  | none => rfl
  | some keyword =>
    simp only [Option.bind_eq_bind, Option.bind_some]
    split
    · rfl
    · rfl

theorem ofFragment?_shift (n : Nat) (f : Fragment) :
    ofFragment? (f.shift n) = (ofFragment? f).map (shift n) := by
  rw [ofFragment?_eq, ofFragment?_eq, Fragment.shift_behind?]
  cases f.behind? ['@', 'i', 'm', 'p', 'o', 'r', 't'] with
  | none => rfl
  | some keyword =>
    simp only [Option.map_some, Option.bind_some, Fragment.shift_dropWhile, Fragment.shift_start,
      Nat.add_right_cancel_iff, urlOpening?_shift, Option.isSome_map]
    have hargument : ∀ a : Fragment, ((urlOpening? a).map (Fragment.shift n)).getD (a.shift n) =
        ((urlOpening? a).getD a).shift n := by
      intro a
      cases urlOpening? a <;> rfl
    rw [hargument, path?_shift]
    split
    · rfl
    · cases path? ((urlOpening? (keyword.dropWhile isBlank)).getD (keyword.dropWhile isBlank)) with
      | none => rfl
      | some parts => exact finish?_shift ..

/-- The span of an import is that of its statement. -/
theorem ofFragment?_span {f : Fragment} {i : Import} (h : ofFragment? f = some i) :
    i.span = f.span := by
  rw [ofFragment?_eq] at h
  obtain ⟨keyword, -, h⟩ := Option.bind_eq_some_iff.1 h
  dsimp only at h
  split at h
  · simp at h
  · obtain ⟨⟨path, rest⟩, -, h⟩ := Option.bind_eq_some_iff.1 h
    dsimp only [finish?] at h
    split at h
    · simp only [Option.some.injEq] at h; rw [← h]
    · simp at h

end Import

end StyleServer
