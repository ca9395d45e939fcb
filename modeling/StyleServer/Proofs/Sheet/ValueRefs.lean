/-
  The references of a declaration and those of its stored value.

  References are searched for in the value as written, and those inside comments are left out.
  The stored value has no comments, and its lines are put in order.

  * `spacedFrom_tidied`: putting lines in order changes only the blanks between words.
  * `ValuePart.Apart`: no reference crosses a border of a comment, nor the seam that a comment
    leaves in what is kept.
  * `Apart.refsOutside_eq`, `Apart.names_eq`: one comment, and a run along all of them.
    The references outside of comments are those of what is kept.
  * `Sheet.refs_of_value`: so the references of a declaration are those of its stored value.
  * `Sheet.refs_not_of_value`: a comment inside of a reference hides it.
-/
import StyleServer.Proofs.Diagnostic.Document
import StyleServer.Proofs.Sheet.References
import StyleServer.Proofs.Sheet.ValueComments

namespace StyleServer

open ValuePart (commentSpans)

/-! ## Lines in order -/

theorem spacedFrom_trim (text : Text) : spacedFrom false text.trim = spacedFrom false text := by
  obtain ⟨before, after, htext, -, hb, ha, -⟩ := (Fragment.whole text).trim_spec
  have htext : text = before ++ (text.trim ++ after) := htext
  conv => rhs; rw [htext]
  exact (spacedFrom_trimmed hb ha _).symm

theorem spacedFrom_trimEnd (text : Text) :
    spacedFrom false text.trimEnd = spacedFrom false text := by
  have htext : text = [] ++ (text.trimEnd ++ (text.reverse.takeWhile isBlank).reverse) := by
    rw [List.nil_append, Text.trimEnd, ← List.reverse_append, List.takeWhile_append_dropWhile,
      List.reverse_reverse]
  have hblank : ∀ c ∈ (text.reverse.takeWhile isBlank).reverse, isBlank c = true := fun c hc =>
    List.all_eq_true.1 List.all_takeWhile c (List.mem_reverse.1 hc)
  conv => rhs; rw [htext]
  exact (spacedFrom_trimmed (by simp) hblank _).symm

theorem spacedFrom_intercalate (lines : List Text) :
    spacedFrom false (['\n'].intercalate lines) = lines.flatMap (spacedFrom false) := by
  induction lines with
  | nil => rfl
  | cons line lines ih =>
    cases lines with
    | nil => simp
    | cons next lines =>
      rw [List.intercalate_cons_cons, List.append_assoc, List.singleton_append,
        spacedFrom_append_blank _ _ (by decide), ih]
      rfl

theorem spacedFrom_lines (start : Nat) (text : Text) :
    ((Fragment.splitFrom '\n' start text).map Fragment.chars).flatMap (spacedFrom false) =
      spacedFrom false text := by
  induction text using Text.lines_induction generalizing start with
  | last line h =>
    rw [Fragment.splitFrom_single h]
    simp
  | feed line rest h ih =>
    rw [Fragment.splitFrom_sep h, List.map_cons, List.flatMap_cons, ih,
      spacedFrom_append_blank _ _ (by decide)]

/-- Putting the lines of a text in order changes only the blanks between its words. -/
theorem spacedFrom_tidied (text : Text) : spacedFrom false text.tidied = spacedFrom false text := by
  have hlines : ∀ lines : List Text, ((lines.filter fun line => !line.all isBlank).map
      Text.trimEnd).flatMap (spacedFrom false) = lines.flatMap (spacedFrom false) := by
    intro lines
    induction lines with
    | nil => rfl
    | cons line lines ih =>
      cases hblank : line.all isBlank with
      | true =>
        rw [List.filter_cons_of_neg (by simp [hblank]), ih, List.flatMap_cons,
          spacedFrom_blanks (List.all_eq_true.1 hblank), List.nil_append]
      | false =>
        rw [List.filter_cons_of_pos (by simp [hblank]), List.map_cons, List.flatMap_cons, ih,
          spacedFrom_trimEnd, List.flatMap_cons]
  rw [Text.tidied, spacedFrom_trim, spacedFrom_intercalate, hlines]
  exact spacedFrom_lines 0 text

/-- Putting lines in order keeps the names of references. -/
theorem names_tidied (text : Text) :
    (variableRefs text.tidied 0).map VariableRef.name =
      (variableRefs text 0).map VariableRef.name := by
  have hspaced : ∀ text : Text, (variableRefsFrom false 0 (spacedFrom false text)).map
      VariableRef.name = (variableRefsFrom false 0 text).map VariableRef.name := fun text =>
    names_spacedFrom (fun h => h) 0
  rw [variableRefs, variableRefs, ← hspaced, spacedFrom_tidied, hspaced]

theorem names_offset (inWord : Bool) (offset offset' : Nat) (text : Text) :
    (variableRefsFrom inWord offset text).map VariableRef.name =
      (variableRefsFrom inWord offset' text).map VariableRef.name := by
  have hzero : ∀ offset, (variableRefsFrom inWord offset text).map VariableRef.name =
      (variableRefsFrom inWord 0 text).map VariableRef.name := fun offset => by
    rw [← Nat.zero_add offset, variableRefsFrom_shift, List.map_map]
    rfl
  exact (hzero offset).trans (hzero offset').symm

/-! ## Behind a comment -/

/-- Behind a comment a reference may begin as behind a blank. -/
structure EndsBefore (comment rest : Text) : Prop where
  ne_nil : comment ≠ []
  not_hidden : behindWord false comment = true → referenceAt? rest = none

theorem IsBlockComment.endsBefore {comment rest : Text} (h : IsBlockComment comment rest) :
    EndsBefore comment rest := by
  cases h with
  | @closed inside rest =>
    -- A comment that is closed ends with a slash.
    have hslash : ∀ inWord, behindWord inWord ['*', '/'] = false := fun inWord => by
      cases inWord <;> decide +kernel
    refine ⟨List.cons_ne_nil _ _, fun hword => ?_⟩
    rw [← List.cons_append, ← List.cons_append, behindWord_append, hslash] at hword
    cases hword
  | unclosed => exact ⟨List.cons_ne_nil _ _, fun _ => rfl⟩

theorem endsBefore_line (cs : Text) :
    EndsBefore ('/' :: '/' :: (untilNewline cs).1) (untilNewline cs).2 := by
  refine ⟨List.cons_ne_nil _ _, fun _ => ?_⟩
  cases hrest : (untilNewline cs).2 with
  | nil => rfl
  | cons c rest =>
    have hfeed : (c != '\n') = false :=
      head?_dropWhile c (by rw [show cs.dropWhile (· != '\n') = c :: rest from hrest]; rfl)
    obtain rfl : c = '\n' := by simpa using hfeed
    exact referenceAt?_blank (by decide) rest

theorem nextValuePart_comment {lineStart next : Bool} {c : Char} {cs comment rest : Text}
    (h : nextValuePart lineStart c cs = (.comment comment, next, rest)) :
    EndsBefore comment rest := by
  rcases nextValuePart_cases lineStart c cs with
    hq | hb | ⟨rfl, rest, rfl⟩ | ⟨rfl, rfl, rest, rfl⟩ | ho
  · simp [nextValuePart_quote hq] at h
  · simp [nextValuePart_blank hb] at h
  · rw [nextValuePart_block, Prod.mk.injEq, Prod.mk.injEq, ValuePart.comment.injEq] at h
    rw [← h.1, ← h.2.2]
    exact (isBlockComment_through rest).endsBefore
  · rw [nextValuePart_line, Prod.mk.injEq, Prod.mk.injEq, ValuePart.comment.injEq] at h
    rw [← h.1, ← h.2.2]
    exact endsBefore_line rest
  · simp [ho.nextValuePart_eq] at h

/-- Each comment of a value ends before the parts behind it. -/
theorem valuePartsFrom_endsBefore {lineStart : Bool} {value c : Text} {ps qs : List ValuePart}
    (h : valuePartsFrom lineStart value = ps ++ .comment c :: qs) :
    EndsBefore c (qs.flatMap ValuePart.chars) := by
  induction ps generalizing lineStart value with
  | nil =>
    cases value with
    | nil => simp [valuePartsFrom] at h
    | cons d ds =>
      rw [valuePartsFrom, List.nil_append] at h
      obtain ⟨hpart, rfl⟩ := List.cons.inj h
      rw [flatMap_chars_valuePartsFrom]
      exact nextValuePart_comment (Prod.ext hpart rfl)
  | cons p ps ih =>
    cases value with
    | nil => simp [valuePartsFrom] at h
    | cons d ds =>
      rw [valuePartsFrom, List.cons_append] at h
      exact ih (List.cons.inj h).2

/-! ## Along the comments -/

namespace ValuePart

/-- What is kept before and behind each comment; `before` is kept of the parts in front. -/
def seamsFrom (before : Text) : List ValuePart → List (Text × Text)
  | [] => []
  | .kept cs :: parts => seamsFrom (before ++ cs) parts
  | .comment _ :: parts => (before, parts.flatMap keptChars) :: seamsFrom before parts

/-- Induction along the comments. -/
@[elab_as_elim]
theorem comments_induction {motive : List ValuePart → Prop} (parts : List ValuePart)
    (last : ∀ front : List Text, motive (front.map kept))
    (comment : ∀ (front : List Text) (c : Text) (parts : List ValuePart), motive parts →
      motive (front.map kept ++ comment c :: parts)) : motive parts := by
  -- The parts read since the last comment stand before those to come.
  suffices h : ∀ front : List Text, motive (front.map kept ++ parts) from h []
  induction parts with
  | nil => intro front; rw [List.append_nil]; exact last front
  | cons p parts ih =>
    intro front
    cases p with
    | comment c => exact comment front c parts (ih [])
    | kept cs => simpa using ih (front ++ [cs])

section
variable (front : List Text)

@[simp] theorem flatMap_chars_kept : (front.map kept).flatMap chars = front.flatten := by
  rw [List.flatMap_map]
  exact List.flatMap_id'

@[simp] theorem flatMap_keptChars_kept : (front.map kept).flatMap keptChars = front.flatten := by
  rw [List.flatMap_map]
  exact List.flatMap_id'

theorem commentSpans_front (offset : Nat) (parts : List ValuePart) :
    commentSpans offset (front.map kept ++ parts) =
      commentSpans (offset + Text.byteLength front.flatten) parts := by
  induction front generalizing offset with
  | nil => rfl
  | cons cs front ih =>
    rw [List.map_cons, List.cons_append, commentSpans_kept, ih, List.flatten_cons,
      Text.byteLength_append, Nat.add_assoc]

theorem seamsFrom_front (before : Text) (parts : List ValuePart) :
    seamsFrom before (front.map kept ++ parts) = seamsFrom (before ++ front.flatten) parts := by
  induction front generalizing before with
  | nil => simp
  | cons cs front ih =>
    rw [List.map_cons, List.cons_append, seamsFrom, ih, List.flatten_cons, List.append_assoc]

end

/-- The references in parts at a byte offset that lie in none of the comments. -/
def refsOutside (offset : Nat) (parts : List ValuePart) : List VariableRef :=
  (variableRefsFrom false offset (parts.flatMap chars)).filter fun ref =>
    !(commentSpans offset parts).any (·.holds ref.span)

/-- What stands before all comments lies in none of them. -/
theorem filter_front (inWord : Bool) (offset : Nat) (text : Text) (parts : List ValuePart) :
    ((variableRefsFrom inWord offset text).filter fun ref =>
      !(commentSpans (offset + text.byteLength) parts).any (·.holds ref.span)) =
        variableRefsFrom inWord offset text := by
  refine List.filter_eq_self.2 fun ref href => ?_
  obtain ⟨-, hpos, hstop⟩ := variableRefsFrom_inside _ _ _ ref href
  simp only [Bool.not_eq_true', List.any_eq_false, Span.holds_iff]
  intro k hk hheld
  have := le_start_of_mem_commentSpans hk
  omega

/-- What stands in a comment is left out. -/
theorem filter_comment (inWord : Bool) (offset : Nat) (text : Text) (spans : List Span) :
    ((variableRefsFrom inWord offset text).filter fun ref =>
      !((⟨offset, offset + text.byteLength⟩ : Span) :: spans).any (·.holds ref.span)) = [] := by
  refine List.filter_eq_nil_iff.2 fun ref href => ?_
  obtain ⟨hstart, -, hstop⟩ := variableRefsFrom_inside _ _ _ ref href
  have hheld : Span.holds ⟨offset, offset + text.byteLength⟩ ref.span = true :=
    Span.holds_iff.2 ⟨hstart, hstop⟩
  simp [hheld]

/-- What stands behind a comment does not lie in it. -/
theorem filter_behind {k : Span} (inWord : Bool) {offset : Nat} (h : k.stop ≤ offset)
    (text : Text) (spans : List Span) :
    ((variableRefsFrom inWord offset text).filter fun ref =>
      !(k :: spans).any (·.holds ref.span)) =
        (variableRefsFrom inWord offset text).filter fun ref => !spans.any (·.holds ref.span) := by
  refine List.filter_congr fun ref href => ?_
  obtain ⟨hstart, hpos, -⟩ := variableRefsFrom_inside _ _ _ ref href
  have hfree : k.holds ref.span = false := by
    rw [← Bool.not_eq_true, Span.holds_iff]
    omega
  rw [List.any_cons, hfree, Bool.false_or]

/-- References and comments keep apart: no reference as written crosses a border of a comment,
    and where a comment is taken out, no reference of what is kept crosses the seam, nor stands
    behind it in a word.  The parts begin at a byte offset, and `before` is kept before them. -/
structure Apart (offset : Nat) (before : Text) (parts : List ValuePart) : Prop where
  borders : ∀ m ∈ referencesFrom false offset (parts.flatMap chars),
    ∀ k ∈ commentSpans offset parts, ¬ m.whole.Crosses k.start ∧ ¬ m.whole.Crosses k.stop
  seams : ∀ m ∈ referencesFrom false before.byteLength (parts.flatMap keptChars),
    ∀ seam ∈ seamsFrom before parts, ¬ m.whole.Crosses seam.1.byteLength
  words : ∀ seam ∈ seamsFrom before parts,
    behindWord false seam.1 = true → referenceAt? seam.2 = none

namespace Apart

variable {offset : Nat} {before c : Text} {front : List Text} {parts : List ValuePart}

/-- The references as written, before a comment, in it and behind it. -/
theorem written_eq (h : Apart offset before (front.map kept ++ comment c :: parts))
    (hc : EndsBefore c (parts.flatMap chars)) :
    referencesFrom false offset ((front.map kept ++ comment c :: parts).flatMap chars) =
      referencesFrom false offset front.flatten ++
        (referencesFrom (behindWord false front.flatten)
            (offset + Text.byteLength front.flatten) c ++
          referencesFrom false (offset + Text.byteLength front.flatten + Text.byteLength c)
            (parts.flatMap chars)) := by
  have hborders := h.borders
  rw [commentSpans_front, commentSpans_comment] at hborders
  rw [List.flatMap_append, List.flatMap_cons, flatMap_chars_kept, chars] at hborders ⊢
  have hstart := referencesFrom_append fun m hm => (hborders m hm _ List.mem_cons_self).1
  rw [hstart] at hborders ⊢
  rw [referencesFrom_append fun m hm =>
    (hborders m (List.mem_append_right _ hm) _ List.mem_cons_self).2]
  -- What stands before the comment does not matter behind it.
  congr 2
  rw [behindWord_of_ne_nil hc.ne_nil _ false]
  cases hword : behindWord false c with
  | false => rfl
  | true => exact referencesFrom_of_none (hc.not_hidden hword) _ _

/-- The references of what is kept, before a seam and behind it. -/
theorem kept_eq (h : Apart offset before (front.map kept ++ comment c :: parts)) :
    referencesFrom false before.byteLength
        ((front.map kept ++ comment c :: parts).flatMap keptChars) =
      referencesFrom false before.byteLength front.flatten ++
        referencesFrom false (Text.byteLength (before ++ front.flatten))
          (parts.flatMap keptChars) := by
  obtain ⟨-, hseams, hwords⟩ := h
  rw [seamsFrom_front, seamsFrom] at hseams hwords
  rw [List.flatMap_append, List.flatMap_cons, flatMap_keptChars_kept, keptChars,
    List.nil_append] at hseams ⊢
  have hnot := fun m hm => hseams m hm _ List.mem_cons_self
  have hword := hwords _ List.mem_cons_self
  rw [Text.byteLength_append] at hnot ⊢
  rw [referencesFrom_append hnot]
  congr 1
  cases hfront : behindWord false front.flatten with
  | false => rfl
  | true =>
    have hne : front.flatten ≠ [] := by
      rintro hnil
      simp [hnil, behindWord] at hfront
    refine referencesFrom_of_none (hword ?_) _ _
    rw [behindWord_append, behindWord_of_ne_nil hne _ false, hfront]

/-- Behind a comment, references and comments keep apart as well. -/
theorem behind (h : Apart offset before (front.map kept ++ comment c :: parts))
    (hc : EndsBefore c (parts.flatMap chars)) :
    Apart (offset + Text.byteLength front.flatten + Text.byteLength c) (before ++ front.flatten)
      parts := by
  have hwritten := h.written_eq hc
  have hkept := h.kept_eq
  obtain ⟨hborders, hseams, hwords⟩ := h
  rw [hwritten, commentSpans_front, commentSpans_comment] at hborders
  rw [hkept, seamsFrom_front, seamsFrom] at hseams
  rw [seamsFrom_front, seamsFrom] at hwords
  refine ⟨fun m hm k hk => hborders m ?_ k (List.mem_cons_of_mem _ hk),
    fun m hm seam hs => hseams m (List.mem_append_right _ hm) seam (List.mem_cons_of_mem _ hs),
    fun seam hs => hwords seam (List.mem_cons_of_mem _ hs)⟩
  exact List.mem_append_right _ (List.mem_append_right _ hm)

/-- **A step:** the references outside of comments are those before the first comment and
    those behind it. -/
theorem refsOutside_eq (h : Apart offset before (front.map kept ++ comment c :: parts))
    (hc : EndsBefore c (parts.flatMap chars)) :
    refsOutside offset (front.map kept ++ comment c :: parts) =
      variableRefsFrom false offset front.flatten ++
        refsOutside (offset + Text.byteLength front.flatten + Text.byteLength c) parts := by
  have hwritten := congrArg (List.map Reference.ref) (h.written_eq hc)
  simp only [List.map_append, map_ref_referencesFrom] at hwritten
  rw [refsOutside, hwritten, List.filter_append, List.filter_append, commentSpans_front,
    filter_front, commentSpans_comment, filter_comment, filter_behind _ (Nat.le_refl _)]
  rfl

/-- **A run along the comments:** the references outside of them have the names of those in what
    is kept. -/
theorem names_eq (h : Apart offset before parts)
    (hends : ∀ ps c qs, parts = ps ++ comment c :: qs → EndsBefore c (qs.flatMap chars)) :
    (refsOutside offset parts).map VariableRef.name =
      (variableRefsFrom false before.byteLength (parts.flatMap keptChars)).map
        VariableRef.name := by
  induction parts using comments_induction generalizing offset before with
  | last front =>
    have hnone := commentSpans_front front offset []
    rw [List.append_nil] at hnone
    rw [refsOutside, hnone, flatMap_chars_kept, flatMap_keptChars_kept]
    simp only [commentSpans, List.any_nil, Bool.not_false, List.filter_true]
    exact names_offset ..
  | comment front c parts ih =>
    have hc := hends _ c parts rfl
    have hbehind := ih (h.behind hc) fun ps d qs heq =>
      hends (front.map kept ++ comment c :: ps) d qs (by simp [heq])
    have hkept := congrArg (List.map Reference.ref) h.kept_eq
    simp only [List.map_append, map_ref_referencesFrom] at hkept
    rw [h.refsOutside_eq hc, hkept, List.map_append, List.map_append, hbehind, names_offset]

end Apart

end ValuePart

/-! ## Sheets -/

/-- References and comments keep apart in a value. -/
def Fragment.CommentsApart (value : Fragment) : Prop :=
  ValuePart.Apart value.start [] (valueParts value.chars)

/-- The references of a value have the names of those in it without its comments. -/
theorem Declaration.names_refsOf {value : Fragment} (h : value.CommentsApart) :
    (refsOf value).map VariableRef.name =
      (variableRefs (withoutComments value.chars) 0).map VariableRef.name := by
  have hvalue : (valueParts value.chars).flatMap ValuePart.chars = value.chars :=
    flatMap_chars_valuePartsFrom false value.chars
  have hnames := h.names_eq fun _ _ _ => valuePartsFrom_endsBefore
  have hkept := outside_commentSpans value.start (valueParts value.chars)
  rw [ValuePart.refsOutside, hvalue] at hnames
  rw [hvalue] at hkept
  rw [← hkept] at hnames
  rw [withoutComments_eq value.start, Text.without]
  split
  · next hnone =>
    have hall : Text.outside (commentSpans value.start (valueParts value.chars)) value.start
        value.chars = value.chars := Text.outside_before (by simp [List.isEmpty_iff.1 hnone])
    rw [hall] at hnames
    exact hnames
  · rw [names_tidied]
    exact hnames

namespace Sheet

/-- A reference is found from its first byte. -/
theorem refAt?_start {text : Text} {ref : VariableRef}
    (h : ref ∈ (ofText text).declarations.flatMap Declaration.refs) :
    (ofText text).refAt? ref.span.start = some ref :=
  ((refAt?_onlyAt text ref.span.start).found_iff ref).2
    ⟨h, Span.touches_iff.2 ⟨Nat.le_refl _, Nat.le_of_lt (ref_pos h)⟩⟩

/-- **The references of a declaration are those of its stored value** where references and
    comments keep apart.  Then a value with references is not compared with keywords, and each
    of its references is found in the sheet. -/
theorem refs_of_value {text : String} {d : Declaration} (hd : d ∈ (parse text).declarations)
    (h : Fragment.CommentsApart ⟨d.valueSpan.start, d.rawValue text.toList⟩) :
    d.refs.map VariableRef.name = (variableRefs d.value.toList 0).map VariableRef.name ∧
      (d.usesVariables = true ↔ variableRefs d.value.toList 0 ≠ []) ∧
      (variableRefs d.value.toList 0 ≠ [] → ∀ registry report,
        (parse text).propertyIssue? registry d = some report →
          report.issue = .unknownProperty d.name) ∧
      ∀ found ∈ variableRefs d.value.toList 0, ∃ ref ∈ d.refs, ref.name = found.name ∧
        (parse text).refAt? ref.span.start = some ref := by
  have hnames : d.refs.map VariableRef.name =
      (variableRefs d.value.toList 0).map VariableRef.name := by
    obtain ⟨f, hf, hd⟩ := declaration_origin hd
    obtain ⟨before, behind, hcut, -, rfl⟩ := Declaration.ofFragment?_parts hd
    have hpart := (Fragment.trim_partOf behind).trans (Fragment.cutAt_eq_some hcut).2.1
    have hraw : (Declaration.ofParts before.trim behind.trim).rawValue text.toList =
        behind.trim.chars := by
      rw [Declaration.rawValue, Declaration.ofParts, (hpart.in_text hf.in_text).slice?_span]
      rfl
    rw [hraw] at h
    have hrefs := Declaration.names_refsOf h
    rw [Declaration.ofParts, String.toList_ofList]
    exact hrefs
  have huses : d.usesVariables = true ↔ variableRefs d.value.toList 0 ≠ [] := by
    rw [Declaration.usesVariables, ← List.isEmpty_map (f := VariableRef.name), hnames]
    simp
  refine ⟨hnames, huses, fun hne registry report hreport => ?_, fun found hfound => ?_⟩
  · rcases propertyIssue?_eq_some hreport with ⟨-, -, rfl⟩ | ⟨hnone, -⟩
    · rfl
    · exact absurd (huses.2 hne) (by simp [hnone])
  · have hname : found.name ∈ d.refs.map VariableRef.name := by
      rw [hnames]
      exact List.mem_map_of_mem hfound
    obtain ⟨ref, href, heq⟩ := List.mem_map.1 hname
    exact ⟨ref, href, heq, refAt?_start (List.mem_flatMap.2 ⟨d, hd, href⟩)⟩

/-- A value with comments of either kind, and references inside and outside of them. -/
def mixed : String := "a\x7bb:var(--x)/*var(--y)*/c\n//\nvar( --z)\x7d"

/-- The declaration of `mixed`. -/
def mixedDeclaration : Declaration :=
  ⟨"b", "var(--x)c\nvar( --z)", [⟨"--x", ⟨8, 11⟩⟩, ⟨"--z", ⟨34, 37⟩⟩], ⟨2, 3⟩, ⟨4, 38⟩, ⟨2, 38⟩⟩

theorem refs_of_value_mixed :
    mixedDeclaration ∈ (parse mixed).declarations ∧
      Fragment.CommentsApart ⟨4, mixedDeclaration.rawValue mixed.toList⟩ ∧
      mixedDeclaration.refs.map VariableRef.name = ["--x", "--z"] ∧
      mixedDeclaration.refs.map VariableRef.name =
        (variableRefs mixedDeclaration.value.toList 0).map VariableRef.name := by
  have hmem : mixedDeclaration ∈ (parse mixed).declarations := by decide +kernel
  have hapart : Fragment.CommentsApart ⟨4, mixedDeclaration.rawValue mixed.toList⟩ :=
    ⟨by decide +kernel, by decide +kernel, by decide +kernel⟩
  exact ⟨hmem, hapart, rfl, (refs_of_value hmem hapart).1⟩

/-- A comment inside of a reference hides it, one that ends in an opening makes one up, and one
    between a word and a reference leaves them joined. -/
theorem refs_not_of_value :
    (parse "a\x7bb:var(/**/--x);c:d\n// var(\n--y);e:f/**/var(--z)\x7d").declarations.map (fun d =>
        (d.value, d.refs.map VariableRef.name,
          (variableRefs d.value.toList 0).map VariableRef.name)) =
      [("var(--x)", [], ["--x"]), ("d\n--y)", ["--y"], []), ("fvar(--z)", ["--z"], [])] := by
  decide +kernel

end Sheet

end StyleServer
