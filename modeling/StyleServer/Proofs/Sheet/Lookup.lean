/-
  What stands at an offset.

  A lookup goes through the rule at the offset, which is chosen before any of its parts is
  looked at.  Still it finds the selector, declaration, reference or path whose span falls
  on the offset, the end included, wherever it stands in the sheet.

  * `OnlyAt`: what is found at an offset is the one item there.
  * `Separate`: a byte stands between two items, so that no offset falls on both.
  * `itemsFrom_outlasts`: a rule ends behind its declarations, or with the text.  So no
    other rule begins where one of them ends.
  * `Sheet.parse_findsAt`: the lookups of a sheet.
-/
import StyleServer.Proofs.Sheet.Fidelity
import StyleServer.Sheet.Lookup

namespace StyleServer

/-! ## One item at an offset -/

section
variable {α ρ : Type} {span : α → Span} {items : List α} {offset : Nat}

/-- What is found at an offset: the item whose span falls on it.  No two items are there. -/
structure OnlyAt (span : α → Span) (items : List α) (offset : Nat) (found : Option α) : Prop where
  found_iff : ∀ x, found = some x ↔ x ∈ items ∧ (span x).touches offset = true
  at_most_one : (items.filter fun x => (span x).touches offset).length ≤ 1

/-- A byte stands between two items. -/
def Separate (span : α → Span) (items : List α) : Prop :=
  items.Pairwise fun x y => (span x).stop < (span y).start

theorem Span.not_touches_both {s t : Span} (h : s.stop < t.start)
    (hs : s.touches offset = true) (ht : t.touches offset = true) : False := by
  rw [touches_iff] at hs ht
  omega

theorem Separate.eq_of_touches (h : Separate span items) {x y : α} (hx : x ∈ items)
    (hy : y ∈ items) (hxo : (span x).touches offset = true)
    (hyo : (span y).touches offset = true) : x = y := by
  by_contra hne
  rcases pairwise_total h hx hy hne with hlt | hlt
  · exact Span.not_touches_both hlt hxo hyo
  · exact Span.not_touches_both hlt hyo hxo

theorem Separate.at_most_one (h : Separate span items) :
    (items.filter fun x => (span x).touches offset).length ≤ 1 := by
  have hfilter : Separate span (items.filter fun x => (span x).touches offset) := h.filter _
  have htouches : ∀ x ∈ items.filter fun x => (span x).touches offset,
      (span x).touches offset = true := fun x hx => (List.mem_filter.1 hx).2
  cases hl : items.filter fun x => (span x).touches offset with
  | nil => exact Nat.zero_le 1
  | cons x rest =>
    cases rest with
    | nil => exact Nat.le_refl 1
    | cons y rest =>
      rw [hl] at hfilter htouches
      have hlt := List.rel_of_pairwise_cons hfilter (List.mem_cons_self (a := y))
      exact (Span.not_touches_both hlt (htouches x (by simp)) (htouches y (by simp))).elim

/-- The first item at an offset is the only one. -/
theorem Separate.find?_eq_some_iff (h : Separate span items) (x : α) :
    items.find? (fun x => (span x).touches offset) = some x ↔
      x ∈ items ∧ (span x).touches offset = true := by
  constructor
  · intro hx
    exact ⟨List.mem_of_find?_eq_some hx, by simpa using List.find?_some hx⟩
  · rintro ⟨hx, hxo⟩
    have hsome : (items.find? fun x => (span x).touches offset).isSome :=
      List.find?_isSome.2 ⟨x, hx, hxo⟩
    obtain ⟨y, hy⟩ := Option.isSome_iff_exists.1 hsome
    have hyo : (span y).touches offset = true := by simpa using List.find?_some hy
    rw [hy, h.eq_of_touches hx (List.mem_of_find?_eq_some hy) hxo hyo]

theorem Separate.onlyAt (h : Separate span items) :
    OnlyAt span items offset (items.find? fun x => (span x).touches offset) :=
  ⟨h.find?_eq_some_iff, h.at_most_one⟩

/-- A lookup in two steps: first the owner at an offset, then its part there.  The owner must
    not hide a part of another one. -/
theorem Separate.onlyAt_bind {owners : List ρ} {parts : ρ → List α} {owner : Option ρ}
    (h : Separate span (owners.flatMap parts)) (hmem : ∀ r ∈ owner, r ∈ owners)
    (howner : ∀ r ∈ owners, ∀ x ∈ parts r, (span x).touches offset = true → owner = some r) :
    OnlyAt span (owners.flatMap parts) offset
      (owner.bind fun r => (parts r).find? fun x => (span x).touches offset) := by
  have hparts : ∀ r ∈ owners, Separate span (parts r) := (List.pairwise_flatMap.1 h).1
  refine ⟨fun x => ⟨fun hx => ?_, ?_⟩, h.at_most_one⟩
  · obtain ⟨r, hr, hx⟩ := Option.bind_eq_some_iff.1 hx
    obtain ⟨hx, hxo⟩ := ((hparts r (hmem r hr)).find?_eq_some_iff x).1 hx
    exact ⟨List.mem_flatMap.2 ⟨r, hmem r hr, hx⟩, hxo⟩
  · rintro ⟨hx, hxo⟩
    obtain ⟨r, hr, hx⟩ := List.mem_flatMap.1 hx
    rw [howner r hr x hx hxo, Option.bind_some]
    exact ((hparts r hr).find?_eq_some_iff x).2 ⟨hx, hxo⟩

end

/-! ## The ends of rules -/

/-- The rule ends behind its declarations. -/
def Rule.Outlasts (r : Rule) : Prop := ∀ d ∈ r.declarations, d.span.stop < r.span.stop

/-- A rule that a clause closes ends with its brace, behind all declarations. -/
theorem Level.step_outlasts {text : Text} {lo : Nat} {level : Level} {c : Clause}
    (h : level.LaidAt text lo) (hs : c.StandsBehind lo) {r : Rule}
    (hr : .rule r ∈ (level.step c).2) : r.Outlasts := by
  cases level with
  | outside =>
    cases hm : c.mark with
    | semicolon =>
      simp only [step, hm, Option.mem_toList, Option.map_eq_some_iff, reduceCtorEq, and_false,
        exists_false] at hr
    | openBrace | closeBrace => simp [step, hm] at hr
  | block owner =>
    cases hm : c.mark with
    | semicolon | openBrace => simp [step, hm] at hr
    | closeBrace =>
      simp only [step, hm, Option.mem_toList, Option.map_eq_some_iff, SheetItem.rule.injEq] at hr
      obtain ⟨r, hr, rfl⟩ := hr
      obtain ⟨o, ho⟩ := h.owner r hr
      have hopen : (r.declare c.body).OpenAt text o c.stop :=
        ho.declare (fun f hf => ⟨(hs.body f hf).1, Nat.lt_succ_of_le (hs.body f hf).2⟩) hs.le_stop
      exact fun d hd => (hopen.declarations d hd).2.2
  | nested owner start depth =>
    cases hm : c.mark with
    | semicolon | openBrace => simp [step, hm] at hr
    | closeBrace =>
      simp only [step, hm] at hr
      split at hr <;> simp at hr

/-- A rule that is left open ends with the text. -/
theorem Level.finish_stop {level : Level} {size : Nat} {last : Option Fragment} {r : Rule}
    (hr : .rule r ∈ level.finish size last) : r.span.stop = size := by
  cases level with
  | outside => simp [finish] at hr
  | block owner | nested owner start depth =>
    simp only [finish, List.mem_cons, reduceCtorEq, false_or, Option.mem_toList,
      Option.map_eq_some_iff, SheetItem.rule.injEq] at hr
    obtain ⟨r, -, rfl⟩ := hr
    rfl

theorem itemsFrom_outlasts {text : Text} {lo : Nat} {cs : List Clause} {last : Option Fragment}
    (hr : Clause.Reading text.byteLength lo cs last) (hcs : ∀ c ∈ cs, c ∈ text.clauses.1)
    {level : Level} (h : level.LaidAt text lo) {r : Rule}
    (hmem : .rule r ∈ itemsFrom text.byteLength last level cs) :
    r.Outlasts ∨ r.span.stop = text.byteLength := by
  induction hr generalizing level with
  | last => exact Or.inr (Level.finish_stop hmem)
  | clause hs _ ih =>
    rcases List.mem_append.1 hmem with hmem | hmem
    · exact Or.inl (Level.step_outlasts h hs hmem)
    · exact ih (fun c hc => hcs c (List.mem_cons_of_mem _ hc))
        (Level.step_laid h (hcs _ List.mem_cons_self) hs) hmem

/-! ## Parts that stand apart -/

/-- A reference begins behind its opening. -/
theorem referenceAt?_opening_ne_nil {text opening name rest : Text}
    (h : referenceAt? text = some (opening, name, rest)) : opening ≠ [] := by
  unfold referenceAt? at h
  split at h
  · next heq =>
    split at h
    · simp at h
    · simp only [Option.some.injEq, Prod.mk.injEq] at h
      obtain ⟨rfl, -, -⟩ := h
      unfold referenceOpening? at heq
      split at heq
      · split at heq
        · split at heq
          · simp only [Option.some.injEq, Prod.mk.injEq] at heq
            obtain ⟨rfl, -⟩ := heq
            simp
          · simp at heq
        · simp at heq
      · simp at heq
  · simp at h

theorem lt_start_of_mem_variableRefsFrom {inWord : Bool} {offset : Nat} {text : Text}
    {r : VariableRef} (hr : r ∈ variableRefsFrom inWord offset text) : offset < r.span.start := by
  induction inWord, offset, text using variableRefsFrom.induct with
  | case1 => simp [variableRefsFrom] at hr
  | case2 inWord offset c cs opening name rest h start stop ih =>
    simp only [dite_eq_ite] at h
    have hopening : 0 < opening.byteLength := by
      split at h
      · simp at h
      · exact Text.byteLength_pos (referenceAt?_opening_ne_nil h)
    rw [variableRefsFrom_some h] at hr
    rcases List.mem_cons.1 hr with rfl | hr
    · exact Nat.lt_add_of_pos_right hopening
    · have := ih hr
      omega
  | case3 inWord offset c cs h ih =>
    simp only [dite_eq_ite] at h
    rw [variableRefsFrom_none h] at hr
    have := ih hr
    omega

/-- The opening of the second stands between two references. -/
theorem variableRefsFrom_separate (inWord : Bool) (offset : Nat) (text : Text) :
    Separate VariableRef.span (variableRefsFrom inWord offset text) := by
  induction inWord, offset, text using variableRefsFrom.induct with
  | case1 => simp [variableRefsFrom, Separate]
  | case2 inWord offset c cs opening name rest h start stop ih =>
    simp only [dite_eq_ite] at h
    rw [variableRefsFrom_some h]
    exact List.pairwise_cons.2 ⟨fun _ hs => lt_start_of_mem_variableRefsFrom hs, ih⟩
  | case3 inWord offset c cs h ih =>
    simp only [dite_eq_ite] at h
    rw [variableRefsFrom_none h]
    exact ih

/-- Quotes stand around the path of an import. -/
theorem Import.ofFragment?_path_inside {f : Fragment} {i : Import} (h : ofFragment? f = some i) :
    i.span.start < i.pathSpan.start ∧ i.pathSpan.stop < i.span.stop := by
  obtain ⟨path, ⟨quote, before, after, -, hc, hs⟩, -, hspan⟩ := ofFragment?_path h
  have hquote := quote.utf8Size_pos
  rw [ofFragment?_span h, hspan]
  simp only [Fragment.span, Fragment.stop, hc, hs, Text.byteLength_append, Text.byteLength_cons,
    Text.byteLength_nil]
  omega

/-! ## Sheets -/

namespace Sheet

variable {text : Text}

theorem outlasts {r : Rule} (hr : r ∈ (ofText text).rules) :
    r.Outlasts ∨ r.span.stop = text.byteLength :=
  itemsFrom_outlasts (Clause.reading_clauses text) (fun _ hc => hc)
    ⟨by simp [Level.owner], by simp⟩ (mem_rules hr)

theorem refs_separate {d : Declaration} (hd : d ∈ (ofText text).declarations) :
    Separate VariableRef.span d.refs := by
  obtain ⟨statement, -, hd⟩ := declaration_origin hd
  obtain ⟨before, behind, -, -, rfl⟩ := Declaration.ofFragment?_parts hd
  exact (variableRefsFrom_separate false _ _).sublist (Declaration.refsOf_sublist behind.trim)

/-- The selectors of a rule end before its brace, and so before the next rule. -/
theorem selectors_separate (text : Text) : Separate Selector.span (ofText text).selectors := by
  have h := ofText_wellLaid text
  refine List.pairwise_flatMap.2 ⟨fun r hr => (h.rules_laid r hr).selectors_ordered, ?_⟩
  refine h.rules_ordered.imp_of_mem fun {r r'} hr hr' hlt s hs s' hs' => ?_
  obtain ⟨b, hb, hstop, hsel, -⟩ := (h.rules_laid r hr).brace
  have hbefore := (hsel s hs).2
  have hone := hb.stop_eq
  have hbehind := (Span.holds_iff.1 ((h.rules_laid r' hr').holds_selector hs')).1
  omega

/-- The declarations of a rule begin behind its brace, and so behind the rule before. -/
theorem declarations_separate (text : Text) :
    Separate Declaration.span (ofText text).declarations := by
  have h := ofText_wellLaid text
  refine List.pairwise_flatMap.2 ⟨fun r hr => (h.rules_laid r hr).declarations_ordered, ?_⟩
  refine h.rules_ordered.imp_of_mem fun {r r'} hr hr' hlt d hd d' hd' => ?_
  obtain ⟨b, hb, -, -, hdecl⟩ := (h.rules_laid r' hr').brace
  have hbehind := (hdecl d' hd').1
  have hone := hb.stop_eq
  have hstart := hb.start_le
  have hbefore := (Span.holds_iff.1 ((h.rules_laid r hr).holds_declaration hd)).2
  omega

theorem holds_ref {d : Declaration} (hd : d ∈ (ofText text).declarations) {r : VariableRef}
    (hr : r ∈ d.refs) : d.span.holds r.span = true := by
  obtain ⟨rule, hrule, hd⟩ := List.mem_flatMap.1 hd
  have hlaid := ((ofText_wellLaid text).rules_laid rule hrule).declarations_laid d hd
  have hin := Span.holds_iff.1 (hlaid.refs_inside r hr).1
  have hname := hlaid.name_pos
  have hvalue := hlaid.name_lt_value
  rw [Span.holds_iff, hlaid.span_eq]
  dsimp only
  omega

theorem allRefs_separate (text : Text) :
    Separate VariableRef.span ((ofText text).declarations.flatMap Declaration.refs) := by
  refine List.pairwise_flatMap.2 ⟨fun d hd => refs_separate hd, ?_⟩
  refine (declarations_separate text).imp_of_mem fun {d d'} hd hd' hlt r hr r' hr' => ?_
  have hin := Span.holds_iff.1 (holds_ref hd hr)
  have hin' := Span.holds_iff.1 (holds_ref hd' hr')
  omega

theorem paths_separate (text : Text) : Separate Import.pathSpan (ofText text).imports := by
  refine (ofText_wellLaid text).imports_ordered.imp_of_mem fun {i j} hi hj hlt => ?_
  obtain ⟨f, -, hi⟩ := import_origin hi
  obtain ⟨g, -, hj⟩ := import_origin hj
  have hinside := (Import.ofFragment?_path_inside hi).2
  have hinside' := (Import.ofFragment?_path_inside hj).1
  omega

/-- Where an offset falls on two rules, one of them ends there and the other begins. -/
theorem rules_disjoint {r r' : Rule} (hr : r ∈ (ofText text).rules)
    (hr' : r' ∈ (ofText text).rules) (hne : r ≠ r') :
    r.span.stop ≤ r'.span.start ∨ r'.span.stop ≤ r.span.start :=
  pairwise_total (ofText_wellLaid text).rules_ordered hr hr' hne

/-- The rule that goes on behind an offset is the one looked at. -/
theorem ruleAt?_of_covers {r : Rule} (hr : r ∈ (ofText text).rules) {offset : Nat}
    (h : r.span.covers offset = true) : (ofText text).ruleAt? offset = some r := by
  have hsome : ((ofText text).rules.find? (·.span.covers offset)).isSome :=
    List.find?_isSome.2 ⟨r, hr, h⟩
  obtain ⟨q, hq⟩ := Option.isSome_iff_exists.1 hsome
  have hcovers : q.span.covers offset = true := by simpa using List.find?_some hq
  have heq : r = q := by
    by_contra hne
    rw [Span.covers_iff] at h hcovers
    rcases rules_disjoint hr (List.mem_of_find?_eq_some hq) hne with hlt | hlt
    · omega
    · omega
  rw [ruleAt?, hq, heq, Option.some_or]

/-- At the end of the text the rule that ends there is looked at. -/
theorem ruleAt?_of_end {r : Rule} (hr : r ∈ (ofText text).rules)
    (h : r.span.stop = text.byteLength) : (ofText text).ruleAt? r.span.stop = some r := by
  have hlaid := (ofText_wellLaid text).rules_laid
  have hnone : (ofText text).rules.find? (·.span.covers r.span.stop) = none := by
    refine List.find?_eq_none.2 fun q hq hcovers => ?_
    have hsize := (hlaid q hq).le_size
    rw [Span.covers_iff, h] at hcovers
    simp only [ofText] at hsize
    omega
  have hsome : ((ofText text).rules.find? (·.span.touches r.span.stop)).isSome := by
    refine List.find?_isSome.2 ⟨r, hr, ?_⟩
    exact Span.touches_iff.2 ⟨Nat.le_of_lt (hlaid r hr).pos, Nat.le_refl _⟩
  obtain ⟨q, hq⟩ := Option.isSome_iff_exists.1 hsome
  have htouches : q.span.touches r.span.stop = true := by simpa using List.find?_some hq
  have heq : r = q := by
    by_contra hne
    have hmem := List.mem_of_find?_eq_some hq
    have hpos := (hlaid r hr).pos
    have hqpos := (hlaid q hmem).pos
    have hqsize := (hlaid q hmem).le_size
    simp only [ofText] at hqsize
    rw [Span.touches_iff] at htouches
    rcases rules_disjoint hr hmem hne with hlt | hlt
    · omega
    · omega
  rw [ruleAt?, hnone, Option.none_or, hq, heq]

theorem mem_of_ruleAt? {s : Sheet} {offset : Nat} : ∀ r ∈ s.ruleAt? offset, r ∈ s.rules := by
  intro r hr
  rcases Option.or_eq_some_iff.1 hr with hr | ⟨-, hr⟩
  · exact List.mem_of_find?_eq_some hr
  · exact List.mem_of_find?_eq_some hr

theorem ruleAt?_of_selector {r : Rule} (hr : r ∈ (ofText text).rules) {s : Selector}
    (hs : s ∈ r.selectors) {offset : Nat} (h : s.span.touches offset = true) :
    (ofText text).ruleAt? offset = some r := by
  obtain ⟨b, hb, hstop, hsel, -⟩ := ((ofText_wellLaid text).rules_laid r hr).brace
  have hin := hsel s hs
  have hone := hb.stop_eq
  rw [Span.touches_iff] at h
  exact ruleAt?_of_covers hr (Span.covers_iff.2 ⟨by omega, by omega⟩)

theorem ruleAt?_of_declaration {r : Rule} (hr : r ∈ (ofText text).rules) {d : Declaration}
    (hd : d ∈ r.declarations) {offset : Nat} (h : d.span.touches offset = true) :
    (ofText text).ruleAt? offset = some r := by
  have hin := Span.holds_iff.1 (((ofText_wellLaid text).rules_laid r hr).holds_declaration hd)
  rw [Span.touches_iff] at h
  by_cases hlt : offset < r.span.stop
  · exact ruleAt?_of_covers hr (Span.covers_iff.2 ⟨by omega, hlt⟩)
  · have heq : offset = r.span.stop := by omega
    -- The declaration ends with its rule, which is therefore left open.
    rcases outlasts hr with hout | hend
    · have := hout d hd
      omega
    · rw [heq]
      exact ruleAt?_of_end hr hend

/-- What the lookups at an offset find. -/
structure FindsAt (s : Sheet) (offset : Nat) : Prop where
  declaration : OnlyAt Declaration.span s.declarations offset (s.declarationAt? offset)
  selector : OnlyAt Selector.span s.selectors offset (s.selectorAt? offset)
  reference : OnlyAt VariableRef.span (s.declarations.flatMap Declaration.refs) offset
    (s.refAt? offset)
  path : OnlyAt Import.pathSpan s.imports offset (s.importAt? offset)

theorem declarationAt?_onlyAt (text : Text) (offset : Nat) :
    OnlyAt Declaration.span (ofText text).declarations offset
      ((ofText text).declarationAt? offset) :=
  (declarations_separate text).onlyAt_bind mem_of_ruleAt?
    fun _ hr _ hd h => ruleAt?_of_declaration hr hd h

theorem refAt?_onlyAt (text : Text) (offset : Nat) :
    OnlyAt VariableRef.span ((ofText text).declarations.flatMap Declaration.refs) offset
      ((ofText text).refAt? offset) := by
  have hdecl := declarationAt?_onlyAt text offset
  refine (allRefs_separate text).onlyAt_bind (fun d hd => ((hdecl.found_iff d).1 hd).1) ?_
  intro d hd r hr h
  have hin := Span.holds_iff.1 (holds_ref hd hr)
  rw [Span.touches_iff] at h
  exact (hdecl.found_iff d).2 ⟨hd, Span.touches_iff.2 ⟨by omega, by omega⟩⟩

theorem ofText_findsAt (text : Text) (offset : Nat) : (ofText text).FindsAt offset where
  declaration := declarationAt?_onlyAt text offset
  selector := (selectors_separate text).onlyAt_bind mem_of_ruleAt?
    fun _ hr _ hs h => ruleAt?_of_selector hr hs h
  reference := refAt?_onlyAt text offset
  path := (paths_separate text).onlyAt

/-- **Lookups find what stands at an offset, and nothing else stands there.** -/
theorem parse_findsAt (text : String) (offset : Nat) : (parse text).FindsAt offset :=
  ofText_findsAt text.toList offset

/-- At the end of one rule the selector of the next is found, though both rules are there. -/
example : ((parse "a\x7bb:c\x7dd\x7b\x7d").selectorAt? 6).map (·.text) = some "d" := by
  decide +kernel

end Sheet

end StyleServer
