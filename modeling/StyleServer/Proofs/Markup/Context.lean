/-
  Where a class is named, classes are offered.

  A definition is looked up by the class attributes of the whole text, whose values are closed.
  What is typed is judged by the line before the pointer, at the end of which a value is open.

  * `Text.EndsInClassValue`, `endsInClassValue_iff`: a line that ends inside of an attribute's
    value, said from the front.
  * `markupContext_eq_styleClass`: at the end of such a line a class is typed, whatever else the
    line could end with.
  * `ClassReference.WrittenIn`: the attribute that a reference is written in, of which there is
    one (`ClassReference.WrittenIn.unique`).
  * `Text.NamesClass`, `classReferences_typed`: a reference is a place where a class is typed, as
    long as the attribute is open in the line before the pointer.
-/
import StyleServer.Proofs.Markup.References
import StyleServer.Proofs.Search.Classes
import StyleServer.Proofs.Text.Positions
import StyleServer.Session.Basic

namespace StyleServer

/-! ## Open values -/

/-- The text ends inside the value of a class attribute: no quote of either kind stands in the
    value so far.  The attribute does not stand behind a word character. -/
inductive Text.EndsInClassValue : Text → Prop where
  | mk {before opening value : Text} {quote : Char}
      (hbefore : ∀ c ∈ before.getLast?, isWordChar c = false) (hopening : IsClassOpening opening)
      (hquote : isQuote quote = true) (hvalue : ∀ c ∈ value, isQuote c = false) :
      EndsInClassValue (before ++ (opening ++ quote :: value))

/-- What is dropped is a run. -/
theorem exists_run {p : Char → Bool} {cs rest : Text} (h : cs.dropWhile p = rest) :
    ∃ run, (∀ c ∈ run, p c = true) ∧ cs = run ++ rest :=
  ⟨cs.takeWhile p, List.all_eq_true.1 List.all_takeWhile, by
    rw [← h, List.takeWhile_append_dropWhile]⟩

/-- **An opening read from its end:** blanks, the sign, blanks and the word. -/
theorem isClassOpening_reverse_iff {text before : Text} :
    (∃ opening, IsClassOpening opening ∧ text = opening.reverse ++ before) ↔
      ∃ rest, text.dropWhile isBlank = '=' :: rest ∧
        rest.dropWhile isBlank = 's' :: 's' :: 'a' :: 'l' :: 'c' :: before := by
  constructor
  · rintro ⟨opening, @⟨between, behind, hbetween, hbehind⟩, rfl⟩
    have hsign : ∀ rest : Text, ∀ c ∈ ('=' :: rest).head?, isBlank c = false := by
      rintro rest c ⟨⟩
      decide
    have hword : ∀ rest : Text, ∀ c ∈ ('s' :: rest).head?, isBlank c = false := by
      rintro rest c ⟨⟩
      decide
    have htext : ('c' :: 'l' :: 'a' :: 's' :: 's' :: (between ++ '=' :: behind)).reverse ++ before =
        behind.reverse ++ '=' :: (between.reverse ++ 's' :: 's' :: 'a' :: 'l' :: 'c' :: before) := by
      simp
    refine ⟨between.reverse ++ 's' :: 's' :: 'a' :: 'l' :: 'c' :: before, ?_, ?_⟩
    · rw [htext]
      exact dropWhile_stop (by simpa using hbehind) (hsign _)
    · exact dropWhile_stop (by simpa using hbetween) (hword _)
  · rintro ⟨rest, hsign, hword⟩
    obtain ⟨behind, hbehind, rfl⟩ := exists_run hsign
    obtain ⟨between, hbetween, rfl⟩ := exists_run hword
    have hbetween' : ∀ c ∈ between.reverse, isBlank c = true := by simpa using hbetween
    have hbehind' : ∀ c ∈ behind.reverse, isBlank c = true := by simpa using hbehind
    exact ⟨_, .mk hbetween' hbehind', by simp⟩

/-- A text that ends with an opening ends with one opening only. -/
theorem IsClassOpening.append_inj {before before' opening opening' : Text}
    (h : IsClassOpening opening) (h' : IsClassOpening opening')
    (heq : before ++ opening = before' ++ opening') : before = before' ∧ opening = opening' := by
  have hreverse := congrArg List.reverse heq
  rw [List.reverse_append, List.reverse_append] at hreverse
  obtain ⟨rest, hsign, hword⟩ := isClassOpening_reverse_iff.1 ⟨opening, h, rfl⟩
  obtain ⟨rest', hsign', hword'⟩ := isClassOpening_reverse_iff.1 ⟨opening', h', hreverse⟩
  obtain rfl := (List.cons.inj (hsign.symm.trans hsign')).2
  rw [hword] at hword'
  simp only [List.cons.injEq, true_and, List.reverse_inj] at hword'
  subst hword'
  exact ⟨rfl, List.append_cancel_left heq⟩

/-- **Reading from the end** finds the value that a line ends in. -/
theorem endsInClassValue_iff {line : Text} :
    endsInClassValue line = true ↔ line.EndsInClassValue := by
  have hnot : (fun c : Char => c != '"' && c != '\'') = fun c => !isQuote c := by
    funext c
    simp [isQuote, bne]
  rw [endsInClassValue, hnot]
  constructor
  · intro h
    split at h
    · simp at h
    · next quote rest hdrop =>
      split at h
      · next rest' hsign =>
        split at h
        · next before hword =>
          obtain ⟨opening, hopening, rfl⟩ := isClassOpening_reverse_iff.2 ⟨_, hsign, hword⟩
          obtain ⟨value, hvalue, hreverse⟩ := exists_run hdrop
          have hline : line = before.reverse ++ (opening ++ quote :: value.reverse) := by
            rw [← List.reverse_reverse line, hreverse]
            simp
          have hhead : quote ∈ (line.reverse.dropWhile fun c => !isQuote c).head? := by
            rw [hdrop]
            rfl
          have hquote := head?_dropWhile quote hhead
          rw [hline]
          refine .mk ?_ hopening (by simpa using hquote) (by simpa using hvalue)
          rw [List.getLast?_reverse]
          intro c hc
          simpa [Option.mem_def.1 hc] using h
        · simp at h
      · simp at h
  · rintro @⟨before, opening, value, quote, hbefore, hopening, hquote, hvalue⟩
    have hstop : ∀ c ∈ (quote :: (opening.reverse ++ before.reverse)).head?,
        (!isQuote c) = false := by
      rintro c ⟨⟩
      simp [hquote]
    have hline : (before ++ (opening ++ quote :: value)).reverse =
        value.reverse ++ quote :: (opening.reverse ++ before.reverse) := by simp
    have hread : ∃ opening', IsClassOpening opening' ∧
        opening.reverse ++ before.reverse = opening'.reverse ++ before.reverse :=
      ⟨opening, hopening, rfl⟩
    obtain ⟨rest, hsign, hword⟩ := isClassOpening_reverse_iff.1 hread
    rw [hline, dropWhile_stop (by simpa using hvalue) hstop]
    simp only [hsign, hword, List.head?_reverse]
    cases hlast : before.getLast? with
    | none => rfl
    | some c => simp [hbefore c hlast]

/-! ## What is typed -/

/-- The end of a class attribute's value comes before all else that a line can end with. -/
theorem MarkupContext.ofLine?_eq_styleClass {line : Text} :
    ofLine? line = some .styleClass ↔ line.EndsInClassValue := by
  rw [← endsInClassValue_iff, ofLine?]
  constructor
  · intro h
    split at h
    · assumption
    · split at h
      · simp at h
      · simp at h
  · intro h
    rw [if_pos h]

/-- What is typed is judged by the line before the pointer. -/
theorem markupContext_append (before after : Text) :
    markupContext (before ++ after) before.byteLength =
      .ok (MarkupContext.ofLine? before.lastLine) := by
  rw [markupContext, Text.cut_byteLength]
  rfl

theorem markupContext_eq_styleClass {before after : Text} :
    markupContext (before ++ after) before.byteLength = .ok (some .styleClass) ↔
      before.lastLine.EndsInClassValue := by
  rw [markupContext_append, ← MarkupContext.ofLine?_eq_styleClass, Except.ok.injEq]

/-- A value that is open at the end of a text is open at the end of its last line. -/
theorem Text.EndsInClassValue.lastLine {before opening value : Text} {quote : Char}
    (hbefore : ∀ c ∈ before.getLast?, isWordChar c = false) (hopening : IsClassOpening opening)
    (hquote : isQuote quote = true) (hvalue : ∀ c ∈ value, isQuote c = false)
    (hline : ∀ c ∈ opening ++ quote :: value, c ≠ '\n') :
    (before ++ (opening ++ quote :: value)).lastLine.EndsInClassValue := by
  rw [lastLine_append_line before hline]
  exact .mk (fun c hc => hbefore c (getLast?_lastLine c hc)) hopening hquote hvalue

/-! ## The attribute of a reference -/

/-- Where the value of an attribute begins, there is no other one. -/
theorem ClassAttribute.In.eq_of_value {a b : ClassAttribute} {text : Text} (ha : a.In text)
    (hb : b.In text) (h : a.value = b.value) : a = b := by
  refine ha.eq_of_start hb ?_
  obtain ⟨before, opening, quote, after, hat⟩ := ha
  obtain ⟨before', opening', quote', after', hat'⟩ := hb
  have hsplit : (before ++ (opening ++ [quote])) ++ (a.value.chars ++ quote :: after) =
      (before' ++ (opening' ++ [quote'])) ++ (b.value.chars ++ quote' :: after') := by
    rw [List.append_assoc before, List.append_assoc before', ← hat.text_eq, ← hat'.text_eq]
  have hsize : (before ++ (opening ++ [quote])).byteLength =
      (before' ++ (opening' ++ [quote'])).byteLength := by
    rw [← hat.value_start, ← hat'.value_start, h]
  have hfront := (Text.append_inj hsplit hsize).1
  rw [← List.append_assoc, ← List.append_assoc] at hfront
  obtain ⟨rfl, -⟩ := hat.isOpening.append_inj hat'.isOpening (List.append_inj' hfront rfl).1
  rw [hat.start_eq, hat'.start_eq]

/-- A reference is written in an attribute: the attribute is one of those found in the text, and
    the reference is a word of its value. -/
structure ClassReference.WrittenIn (r : ClassReference) (text : Text) (a : ClassAttribute) :
    Prop where
  isIn : a.In text
  found : a.value ∈ classAttributes text
  isWord : ∃ word : Fragment, word.IsWordOf a.value ∧ r = .ofWord word

namespace ClassReference

variable {r : ClassReference} {text : Text} {a b : ClassAttribute}

theorem WrittenIn.start_le (h : r.WrittenIn text a) : a.value.start ≤ r.span.start := by
  obtain ⟨word, hword, rfl⟩ := h.isWord
  exact hword.partOf.start_le

theorem WrittenIn.le_stop (h : r.WrittenIn text a) : r.span.stop ≤ a.value.stop := by
  obtain ⟨word, hword, rfl⟩ := h.isWord
  exact hword.partOf.stop_le

/-- A reference is written in one attribute only. -/
theorem WrittenIn.unique (ha : r.WrittenIn text a) (hb : r.WrittenIn text b) : a = b := by
  refine ha.isIn.eq_of_value hb.isIn ?_
  have hle : r.span.start ≤ r.span.stop := by
    obtain ⟨word, -, rfl⟩ := ha.isWord
    exact Nat.le_add_right _ _
  have hstart := ha.start_le
  have hstop := ha.le_stop
  have hstart' := hb.start_le
  have hstop' := hb.le_stop
  by_contra hne
  rcases pairwise_total (classAttributes_separate text) ha.found hb.found hne with hlt | hlt
  · omega
  · omega

/-- Each reference is written in an attribute. -/
theorem exists_writtenIn (hr : r ∈ classReferences text) : ∃ a, r.WrittenIn text a := by
  obtain ⟨value, hvalue, word, hword, rfl⟩ := mem_classReferences_iff.1 hr
  obtain ⟨found, hfound, hvalues⟩ := classAttributes_leftmost text
  obtain ⟨a, ha, rfl⟩ := List.mem_map.1 (hvalues ▸ hvalue)
  exact ⟨a, hfound.occurs_of_mem ha, hvalue, word, hword, rfl⟩

end ClassReference

/-! ## References and completion -/

/-- A class is named at an offset of markup, for a definition and for completion alike. -/
structure Text.NamesClass (text : Text) (offset : Nat) (r : ClassReference) : Prop where
  named : classReferenceAt? text offset = some r
  typed : markupContext text offset = .ok (some .styleClass)
  /-- What is offered are the classes of the workspace. -/
  items : ∀ (s : Session) (d : Disk), (s.markupItems d text offset).1 =
    classItems ((Workspace.provider d).classNames s.workspace.settings.pattern none s.workspace).1
  /-- The class itself is offered when its definition is found. -/
  offered : ∀ (s : Session) (d : Disk),
    (∃ item ∈ (s.markupItems d text offset).1, item.label = r.name) ↔
      (s.classDefinition d text offset).1.isSome = true

/-- Completion offers a class when its definition is found. -/
theorem Text.namesClass_of_typed {text : Text} {offset : Nat} {r : ClassReference}
    (named : classReferenceAt? text offset = some r)
    (typed : markupContext text offset = .ok (some .styleClass)) :
    text.NamesClass offset r := by
  have items : ∀ (s : Session) (d : Disk), (s.markupItems d text offset).1 =
      classItems ((Workspace.provider d).classNames s.workspace.settings.pattern none
        s.workspace).1 := by
    intro s d
    rw [Session.markupItems, typed]
    rfl
  refine ⟨named, typed, items, fun s d => ?_⟩
  have hsteady := Workspace.provider_steady d s.workspace
  have hdefinition : (s.classDefinition d text offset).1 = ((Workspace.provider d).findClass r.name
      s.workspace.settings.pattern none s.workspace).found := by
    rw [Session.classDefinition, named]
  rw [items, hdefinition, Provider.findClass_isSome hsteady .refl,
    ← Provider.mem_classNames_iff hsteady .refl]
  simp [classItems]

/-- The text between the opening of a reference's attribute and an offset inside of its value. -/
theorem ClassReference.WrittenIn.typed {r : ClassReference} {text : Text} {a : ClassAttribute}
    (h : r.WrittenIn text a) {offset : Nat} (ho : text.isBoundary offset = true)
    (hle : r.span.start ≤ offset) : ∃ line value,
      text.slice? ⟨a.start, offset⟩ = some line ∧ text.slice? ⟨a.value.start, offset⟩ = some value ∧
      ('\n' ∉ line → (∀ c ∈ value, isQuote c = false) →
        markupContext text offset = .ok (some .styleClass)) := by
  obtain ⟨before, opening, quote, after, hat⟩ := h.isIn
  obtain ⟨front, behind, rfl, rfl⟩ := Text.isBoundary_iff.1 ho
  have hstart : (before ++ (opening ++ [quote])).byteLength ≤ front.byteLength := by
    rw [← hat.value_start]
    exact Nat.le_trans h.start_le hle
  have hsplit := hat.text_eq.symm
  rw [← List.append_assoc] at hsplit
  obtain ⟨value, rfl, -⟩ := Text.append_split hsplit hstart
  have hline : Fragment.In ⟨a.start, opening ++ [quote] ++ value⟩
      (before ++ (opening ++ [quote]) ++ value ++ behind) :=
    ⟨before, behind, by simp, hat.start_eq.symm⟩
  have hvalue : Fragment.In ⟨a.value.start, value⟩
      (before ++ (opening ++ [quote]) ++ value ++ behind) :=
    ⟨before ++ (opening ++ [quote]), behind, rfl, hat.value_start.symm⟩
  have hlineStop : (before ++ (opening ++ [quote]) ++ value).byteLength =
      a.start + (opening ++ [quote] ++ value).byteLength := by
    rw [hat.start_eq, List.append_assoc, Text.byteLength_append]
  have hvalueStop : (before ++ (opening ++ [quote]) ++ value).byteLength =
      a.value.start + value.byteLength := by
    rw [hat.value_start, Text.byteLength_append]
  refine ⟨opening ++ [quote] ++ value, value, ?_, ?_, fun hfeed hquotes => ?_⟩
  · rw [hlineStop]
    exact hline.slice?_span
  · rw [hvalueStop]
    exact hvalue.slice?_span
  · have hfront : before ++ (opening ++ [quote]) ++ value =
        before ++ (opening ++ quote :: value) := by simp
    have hfeeds : ∀ c ∈ opening ++ quote :: value, c ≠ '\n' := by
      rintro c hc rfl
      exact hfeed (by simpa using hc)
    rw [markupContext_eq_styleClass, hfront]
    exact .lastLine hat.begins hat.isOpening hat.isQuote hquotes hfeeds

/-- **Where a class is named, classes are offered:** at an offset on a reference to a class, as
    long as the attribute is on one line up to there, and no quote of the other kind stands in
    its value so far. -/
theorem classReferences_typed {text : Text} {r : ClassReference} (hr : r ∈ classReferences text)
    {offset : Nat} (ho : text.isBoundary offset = true) (hat : r.span.touches offset = true) :
    ∃ a line value, (∀ b, r.WrittenIn text b ↔ b = a) ∧
      text.slice? ⟨a.start, offset⟩ = some line ∧ text.slice? ⟨a.value.start, offset⟩ = some value ∧
      ('\n' ∉ line → (∀ c ∈ value, isQuote c = false) → text.NamesClass offset r) := by
  obtain ⟨a, ha⟩ := ClassReference.exists_writtenIn hr
  obtain ⟨line, value, hline, hvalue, htyped⟩ := ha.typed ho (Span.touches_iff.1 hat).1
  refine ⟨a, line, value, fun b => ⟨fun hb => hb.unique ha, ?_⟩, hline, hvalue, ?_⟩
  · rintro rfl
    exact ha
  · intro hfeed hquotes
    have hnamed : classReferenceAt? text offset = some r :=
      ((classReferences_separate text).onlyAt.found_iff r).2 ⟨hr, hat⟩
    exact Text.namesClass_of_typed hnamed (htyped hfeed hquotes)

/-- Two attributes on two lines, of which the second names two classes. -/
def twoAttributes : Text := "<A class='é'\n class = \"b ç\"/>".toList

theorem twoAttributes_typed :
    (⟨"ç", ⟨26, 28⟩⟩ ∈ classReferences twoAttributes ∧ twoAttributes.isBoundary 28 = true) ∧
      twoAttributes.NamesClass 28 ⟨"ç", ⟨26, 28⟩⟩ := by
  have hr : ⟨"ç", ⟨26, 28⟩⟩ ∈ classReferences twoAttributes := by decide +kernel
  have ho : twoAttributes.isBoundary 28 = true := by decide
  have hin : ClassAttribute.In ⟨15, ⟨24, ['b', ' ', 'ç']⟩, 29⟩ twoAttributes := by
    refine ClassAttribute.in_iff.2 ⟨"<A class='é'\n ".toList, "class = \"b ç\"/>".toList,
      "class = \"".toList, ['b', ' ', 'ç'], "/>".toList, ?_, ?_, ?_, ?_⟩
    · decide +kernel
    · have hlast : "<A class='é'\n ".toList.getLast? = some ' ' := by decide +kernel
      rw [hlast]
      rintro c ⟨⟩
      decide +kernel
    · decide +kernel
    · rfl
  have hwritten : ClassReference.WrittenIn ⟨"ç", ⟨26, 28⟩⟩ twoAttributes
      ⟨15, ⟨24, ['b', ' ', 'ç']⟩, 29⟩ :=
    ⟨hin, by decide +kernel, ⟨26, ['ç']⟩, Fragment.mem_words_iff.1 (by decide), rfl⟩
  obtain ⟨a, line, value, ha, hline, hvalue, h⟩ := classReferences_typed hr ho (by decide)
  obtain rfl := (ha _).1 hwritten
  have hline' : twoAttributes.slice? ⟨15, 28⟩ = some "class = \"b ç".toList := by decide +kernel
  have hvalue' : twoAttributes.slice? ⟨24, 28⟩ = some ['b', ' ', 'ç'] := by decide +kernel
  obtain rfl := Option.some.inj (hline'.symm.trans hline)
  obtain rfl := Option.some.inj (hvalue'.symm.trans hvalue)
  exact ⟨⟨hr, ho⟩, h (by decide) (by simp [isQuote])⟩

/-- Behind a line feed the attribute is not seen to be open. -/
example : classReferenceAt? "class='a\nb'".toList 10 = some ⟨"b", ⟨9, 10⟩⟩ ∧
    markupContext "class='a\nb'".toList 10 = .ok none := by decide +kernel

end StyleServer
