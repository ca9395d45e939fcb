/-
  The outline of a style sheet, by positions.

  An editor refuses an outline when the selection of one symbol leaves its range.  All ranges
  come from spans, so what is known of spans carries over to ranges: the conversion keeps the
  order (`Text.position_le`), and between two characters it keeps it strictly.

  * `Range.Encloses`, `Text.range_encloses`: a range inside of another.
  * `Fragment.In.boundaries`, `Sheet.declaration_boundaries`: declarations begin and end between
    two characters.
  * `Sheet.WellOutlined`, `Sheet.outline_wellOutlined`: what the outline of a sheet is like.
-/
import StyleServer.Outline
import StyleServer.Proofs.Sheet.Concat
import StyleServer.Proofs.Sheet.Fidelity
import StyleServer.Proofs.Text.Positions

namespace StyleServer

/-! ## Ranges inside of others -/

/-- The second range lies inside of the first. -/
structure Range.Encloses (r s : Range) : Prop where
  start_le : r.start.le s.start = true
  ordered : s.start.le s.stop = true
  stop_le : s.stop.le r.stop = true

theorem Text.range_encloses (text : Text) {s t : Span} (h : s.holds t = true)
    (ht : t.start ≤ t.stop) : (text.range s).Encloses (text.range t) :=
  have h := Span.holds_iff.1 h
  ⟨text.position_le h.1, text.position_le ht, text.position_le h.2⟩

/-- The ends of a part of a text lie between two characters. -/
theorem Fragment.In.boundaries {f : Fragment} {text : Text} (h : f.In text) :
    text.isBoundary f.start = true ∧ text.isBoundary f.stop = true := by
  obtain ⟨a, b, rfl, ha⟩ := h
  refine ⟨Text.isBoundary_iff.2 ⟨a, f.chars ++ b, by simp, ha⟩,
    Text.isBoundary_iff.2 ⟨a ++ f.chars, b, rfl, ?_⟩⟩
  rw [Text.byteLength_append, ha, Fragment.stop]

namespace Declaration.Laid

variable {d : Declaration}

theorem span_le (h : d.Laid) : d.span.start ≤ d.span.stop := by
  have hname := h.name_pos
  have hvalue := h.name_lt_value
  have hstop := h.value_le
  rw [h.span_eq]
  dsimp only
  omega

theorem holds_name (h : d.Laid) : d.span.holds d.nameSpan = true := by
  have hvalue := h.name_lt_value
  have hstop := h.value_le
  rw [h.span_eq, Span.holds_iff]
  dsimp only
  omega

end Declaration.Laid

/-! ## Symbols -/

/-- The symbol of a declaration has a name, and it is selected inside of the symbol. -/
structure DeclarationSymbol.Nested (c : DeclarationSymbol) : Prop where
  named : c.name ≠ ""
  selection : c.range.Encloses c.selection

/-- The symbol of a rule has a name, it is selected inside of the symbol, and so are its
    declarations, one behind another. -/
structure RuleSymbol.Nested (sym : RuleSymbol) : Prop where
  named : sym.name ≠ ""
  selection : sym.range.Encloses sym.selection
  children : ∀ c ∈ sym.children, c.Nested ∧ sym.range.Encloses c.range
  ordered : sym.children.Pairwise fun c d => c.range.stop.Before d.range.start

namespace Sheet

/-- What the outline of a sheet is like. -/
structure WellOutlined (s : Sheet) : Prop where
  /-- One symbol for each rule, in their order, with its declarations. -/
  ranges_eq : s.outline.map (·.range) = s.rules.map fun r => s.range r.span
  children_eq : s.outline.map (·.children.map (·.range)) =
    s.rules.map fun r => r.declarations.map fun d => s.range d.span
  nested : ∀ sym ∈ s.outline, sym.Nested
  ordered : s.outline.Pairwise fun sym sym' => sym.range.stop.le sym'.range.start = true
  /-- Lines and columns are numbers of 32 bits. -/
  fits : ∀ sym ∈ s.outline, ∀ r ∈ sym.range :: sym.selection ::
      sym.children.flatMap (fun c => [c.range, c.selection]), r.start.Fits ∧ r.stop.Fits

variable {text : Text}

/-- The clause of a rule is not empty. -/
theorem selectorText_ne_empty {r : Rule} (hr : r ∈ (ofText text).rules) : r.selectorText ≠ "" := by
  obtain ⟨f, ⟨before, body, after, hbody⟩, hname, -⟩ := rule_origin hr
  obtain ⟨p, rest, rfl, -⟩ := hbody.first
  have hp : p.chars ≠ [] := Text.chars_ne_nil_of_mem_pieces text p (by rw [hbody.pieces_eq]; simp)
  rw [hname, hbody.fragment_eq, Fragment.text, Ne, ← String.toList_inj, String.toList_ofList]
  simp [hp]

theorem name_ne_empty {d : Declaration} (hd : d ∈ (ofText text).declarations) : d.name ≠ "" := by
  obtain ⟨f, -, hd⟩ := declaration_origin hd
  obtain ⟨before, behind, -, hne, rfl⟩ := Declaration.ofFragment?_parts hd
  show String.ofList before.trim.chars ≠ ""
  rw [Ne, ← String.toList_inj, String.toList_ofList]
  exact hne

/-- Declarations begin and end between two characters. -/
theorem declaration_boundaries {d : Declaration} (hd : d ∈ (ofText text).declarations) :
    text.isBoundary d.span.start = true ∧ text.isBoundary d.span.stop = true := by
  obtain ⟨statement, hs, hd⟩ := declaration_origin hd
  obtain ⟨hlaid, -⟩ := Declaration.ofFragment?_laid hd
  obtain ⟨⟨name, hname, -, -, hnameSpan⟩, ⟨value, hvalue, -, hvalueSpan⟩, -⟩ :=
    Declaration.ofFragment?_fragments hd
  rw [hlaid.span_eq, hnameSpan, hvalueSpan]
  exact ⟨(hname.in_text hs.in_text).boundaries.1, (hvalue.in_text hs.in_text).boundaries.2⟩

theorem declarationSymbol_nested {d : Declaration} (hd : d ∈ (ofText text).declarations) :
    ((ofText text).declarationSymbol d).Nested :=
  have hlaid := declaration_laid hd
  ⟨name_ne_empty hd, text.range_encloses hlaid.holds_name (Nat.le_of_lt hlaid.name_pos)⟩

/-- What is selected for a rule lies inside of it. -/
theorem holds_selectionOf {r : Rule} (hr : r ∈ (ofText text).rules) :
    r.span.holds (selectionOf r) = true ∧ (selectionOf r).start ≤ (selectionOf r).stop := by
  have hlaid := (ofText_wellLaid text).rules_laid r hr
  unfold selectionOf
  cases hsel : r.selectors with
  | nil =>
    have hpos := hlaid.pos
    refine ⟨Span.holds_iff.2 ⟨Nat.le_refl _, ?_⟩, Nat.le_refl _⟩
    exact Nat.le_of_lt hpos
  | cons sel rest =>
    have hmem : sel ∈ r.selectors := by rw [hsel]; exact List.mem_cons_self
    exact ⟨hlaid.holds_selector hmem, Nat.le_of_lt (hlaid.selectors_pos sel hmem)⟩

theorem ruleSymbol_nested {r : Rule} (hr : r ∈ (ofText text).rules) :
    ((ofText text).ruleSymbol r).Nested := by
  have hlaid := (ofText_wellLaid text).rules_laid r hr
  have hmem : ∀ d ∈ r.declarations, d ∈ (ofText text).declarations := fun d hd =>
    List.mem_flatMap.2 ⟨r, hr, hd⟩
  obtain ⟨hholds, hle⟩ := holds_selectionOf hr
  refine ⟨selectorText_ne_empty hr, text.range_encloses hholds hle, ?_, ?_⟩
  · refine List.forall_mem_map.2 fun d hd => ⟨declarationSymbol_nested (hmem d hd), ?_⟩
    exact text.range_encloses (hlaid.holds_declaration hd) (declaration_laid (hmem d hd)).span_le
  · -- A byte stands between two declarations, and both ends lie between two characters.
    refine List.pairwise_map.2 (hlaid.declarations_ordered.imp_of_mem fun {d e} hd he hlt => ?_)
    exact Text.position_before (declaration_boundaries (hmem d hd)).2
      (declaration_boundaries (hmem e he)).1 hlt

/-- **The outline is well nested,** by positions. -/
theorem outline_wellOutlined {text : String} (hsize : Text.byteLength text.toList < UInt32.size) :
    (parse text).WellOutlined where
  ranges_eq := by
    rw [outline, List.map_map]
    rfl
  children_eq := by
    rw [outline, List.map_map]
    refine List.map_congr_left fun r _ => ?_
    exact List.map_map
  nested := List.forall_mem_map.2 fun r hr => ruleSymbol_nested hr
  ordered := List.pairwise_map.2 ((ofText_wellLaid text.toList).rules_ordered.imp fun hle =>
    Text.position_le _ hle)
  fits := by
    have hfits := Text.range_fits hsize
    refine List.forall_mem_map.2 fun r _ => ?_
    refine List.forall_mem_cons.2 ⟨hfits _, List.forall_mem_cons.2 ⟨hfits _, ?_⟩⟩
    intro range hrange
    obtain ⟨c, hc, hrange⟩ := List.mem_flatMap.1 hrange
    obtain ⟨d, -, rfl⟩ := List.mem_map.1 hc
    rcases List.mem_cons.1 hrange with rfl | hrange
    · exact hfits _
    · obtain rfl := List.mem_singleton.1 hrange
      exact hfits _

/-- A rule around a nested block, and one that is left open and has no selector; characters of
    two and four bytes. -/
def twoRules : String := "é\x7b😀:\r\nx;b\x7bc:d\x7d\x7d\r\n,\x7b--y:"

/-- A rule without a selector is selected at its start. -/
theorem twoRules_wellOutlined :
    Text.byteLength twoRules.toList < UInt32.size ∧ (parse twoRules).WellOutlined ∧
      (parse twoRules).outline = [
        ⟨"é", true, ⟨⟨0, 0⟩, ⟨1, 9⟩⟩, ⟨⟨0, 0⟩, ⟨0, 1⟩⟩,
          [⟨"😀", "x", false, ⟨⟨0, 2⟩, ⟨1, 1⟩⟩, ⟨⟨0, 2⟩, ⟨0, 4⟩⟩⟩]⟩,
        ⟨",", false, ⟨⟨2, 0⟩, ⟨2, 6⟩⟩, ⟨⟨2, 0⟩, ⟨2, 0⟩⟩,
          [⟨"--y", "", true, ⟨⟨2, 2⟩, ⟨2, 6⟩⟩, ⟨⟨2, 2⟩, ⟨2, 5⟩⟩⟩]⟩] :=
  ⟨by decide, outline_wellOutlined (by decide), by decide +kernel⟩

end Sheet

end StyleServer
