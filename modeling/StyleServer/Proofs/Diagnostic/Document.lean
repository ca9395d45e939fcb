/-
  What the validation of a style sheet reports.

  Three checks report one behind another, and their reports are merged by range.

  * `Range.le_iff`: the order of ranges.
  * `filter_mergeSort`: reports that are in order already keep their order.
  * `variableIn?_isSome_iff`: a sheet resolves the names of its declarations.
  * `ValidatedExactly`, `validate_exact`: what the merged list holds, in which order, and
    when it has no error.
-/
import StyleServer.Proofs.Check
import StyleServer.Proofs.Diagnostic.Braces

namespace StyleServer

/-! ## The order of ranges -/

namespace Range

/-- The start comes first, then the end. -/
def Before (r s : Range) : Prop :=
  r.start.Before s.start ∨ r.start = s.start ∧ r.stop.Before s.stop

theorem le_iff {r s : Range} : r.le s = true ↔ ¬ s.Before r := by
  unfold le Before
  split
  · next heq =>
    rw [Position.le_iff, heq]
    simp [Position.Before]
  · next hne => simp [Position.le_iff, Ne.symm hne]

theorem le_total (r s : Range) : (r.le s || s.le r) = true := by
  simp only [Bool.or_eq_true, le_iff, Before, Position.Before, Position.eq_iff]
  omega

theorem le_trans (r s t : Range) (h : r.le s = true) (h' : s.le t = true) : r.le t = true := by
  simp only [le_iff, Before, Position.Before, Position.eq_iff] at *
  omega

end Range

/-! ## Merging -/

/-- What is in order already keeps its order. -/
theorem filter_mergeSort {α : Type} {le : α → α → Bool}
    (htrans : ∀ a b c, le a b = true → le b c = true → le a c = true)
    (htotal : ∀ a b, (le a b || le b a) = true) {p : α → Bool} {l : List α}
    (h : (l.filter p).Pairwise fun a b => le a b = true) :
    (l.mergeSort le).filter p = l.filter p := by
  have hsub : (l.filter p).Sublist (l.mergeSort le) :=
    List.sublist_mergeSort htrans htotal h List.filter_sublist
  have hlength := ((List.mergeSort_perm l le).filter p).length_eq
  have hkept := hsub.filter p
  rw [List.filter_filter, funext (Bool.and_self <| p ·)] at hkept
  exact (hkept.eq_of_length hlength.symm).symm

namespace Sheet

/-- The reports of the three checks, one behind another. -/
def reports (s : Sheet) (knowledge : Option Registry) : List Diagnostic :=
  braceDiagnostics s.source ++ s.variableDiagnostics ++
    (knowledge.map s.propertyDiagnostics).getD []

theorem validate_eq (s : Sheet) (knowledge : Option Registry) :
    s.validate knowledge = (s.reports knowledge).mergeSort fun d e => d.range.le e.range := rfl

theorem validate_perm (s : Sheet) (knowledge : Option Registry) :
    (s.validate knowledge).Perm (s.reports knowledge) :=
  List.mergeSort_perm ..

theorem validate_pairwise (s : Sheet) (knowledge : Option Registry) :
    (s.validate knowledge).Pairwise fun d e => d.range.le e.range = true :=
  List.pairwise_mergeSort (fun d e f => Range.le_trans d.range e.range f.range)
    (fun d e => Range.le_total d.range e.range) _

theorem filter_validate {s : Sheet} {knowledge : Option Registry} {p : Diagnostic → Bool}
    (h : ((s.reports knowledge).filter p).Pairwise fun d e => d.range.le e.range = true) :
    (s.validate knowledge).filter p = (s.reports knowledge).filter p :=
  filter_mergeSort (fun d e f => Range.le_trans d.range e.range f.range)
    (fun d e => Range.le_total d.range e.range) h

/-- Reports of one range keep their order. -/
theorem filter_validate_range (s : Sheet) (knowledge : Option Registry) (range : Range) :
    (s.validate knowledge).filter (·.range = range) =
      (s.reports knowledge).filter (·.range = range) := by
  refine filter_validate (List.pairwise_of_forall_mem_list fun d hd e he => ?_)
  have hd : d.range = range := by simpa using (List.mem_filter.1 hd).2
  have he : e.range = range := by simpa using (List.mem_filter.1 he).2
  rw [hd, he]
  simpa using range.le_total range

/-! ## Where the reports stand -/

/-- What one declaration is reported for: a name that is not known, or a value that is made
    from no variable. -/
theorem propertyIssue?_eq_some {s : Sheet} {r : Registry} {decl : Declaration} {d : Diagnostic}
    (h : s.propertyIssue? r decl = some d) :
    (decl.isCustom = false ∧ r.knows decl.name = false ∧
        d = ⟨s.range decl.nameSpan, .unknownProperty decl.name⟩) ∨
      (decl.usesVariables = false ∧ ∃ expected,
        d = ⟨s.range decl.valueSpan, .invalidValue decl.value decl.name expected⟩) := by
  unfold propertyIssue? at h
  split at h
  · simp at h
  · next hcustom =>
    split at h
    · next hfind =>
      exact .inl ⟨by simpa using hcustom, by simp [Registry.knows, hfind], (Option.some.inj h).symm⟩
    · obtain ⟨haccepted, h⟩ := Option.ite_none_left_eq_some.1 h
      simp only [Bool.or_eq_true, not_or, Bool.not_eq_true] at haccepted
      exact .inr ⟨haccepted.1, _, (Option.some.inj h).symm⟩

section
variable {text : Text}

theorem ref_pos {ref : VariableRef}
    (h : ref ∈ (ofText text).declarations.flatMap Declaration.refs) :
    ref.span.start < ref.span.stop := by
  obtain ⟨decl, hdecl, hin⟩ := List.mem_flatMap.1 h
  exact ((declaration_laid hdecl).refs_inside ref hin).2

/-- Each report stands at the range of a span. -/
theorem exists_span_of_report {knowledge : Option Registry} {d : Diagnostic}
    (h : d ∈ (ofText text).reports knowledge) :
    ∃ span : Span, span.start ≤ span.stop ∧ d.range = text.range span := by
  rcases List.mem_append.1 h with h | h
  · rcases List.mem_append.1 h with h | h
    · exact exists_span_of_mem h
    · obtain ⟨ref, href, rfl⟩ := List.mem_map.1 h
      exact ⟨ref.span, Nat.le_of_lt (ref_pos (List.mem_filter.1 href).1), rfl⟩
  · cases knowledge with
    | none => simp at h
    | some r =>
      obtain ⟨decl, hdecl, hissue⟩ := List.mem_filterMap.1 h
      have hlaid := declaration_laid hdecl
      rcases propertyIssue?_eq_some hissue with ⟨-, -, rfl⟩ | ⟨-, expected, rfl⟩
      · exact ⟨decl.nameSpan, Nat.le_of_lt hlaid.name_pos, rfl⟩
      · exact ⟨decl.valueSpan, hlaid.value_le, rfl⟩

/-- References further ahead are reported further ahead. -/
theorem variableDiagnostics_pairwise (text : Text) :
    (ofText text).variableDiagnostics.Pairwise fun d e => d.range.le e.range = true := by
  refine List.pairwise_map.2 (List.Pairwise.filter _ ?_)
  refine (allRefs_separate text).imp_of_mem fun {r r'} hr hr' hlt => ?_
  have hstart := text.position_mono (show r.span.start ≤ r'.span.start by have := ref_pos hr; omega)
  have hstop := text.position_mono (show r.span.stop ≤ r'.span.stop by have := ref_pos hr'; omega)
  rw [Range.le_iff]
  rintro (h | ⟨-, h⟩)
  · exact hstart h
  · exact hstop h

end

/-! ## Undefined variables -/

/-- The report of a variable that is not declared. -/
def isUndefined (d : Diagnostic) : Bool :=
  match d.issue with
  | .undefinedVariable _ => true
  | _ => false

/-- A variable is found exactly when a declaration has its name. -/
theorem variableIn?_isSome_iff (s : Sheet) (name : String) (u : Url) :
    (variableIn? name u s).isSome = true ↔
      ∃ d ∈ s.declarations, d.isCustom = true ∧ d.name = name := by
  rw [variableIn?_isSome]
  have h := congrArg (List.map Prod.fst) s.customProperties_eq
  simp only [List.map_map, Function.comp_def] at h
  rw [Declares, h]
  simp [Declaration.isCustom, and_assoc]

theorem variableDiagnostics_eq (s : Sheet) (u : Url) :
    s.variableDiagnostics =
      ((s.declarations.flatMap Declaration.refs).filter fun ref =>
        (variableIn? ref.name u s).isNone).map fun ref =>
          ⟨s.range ref.span, .undefinedVariable ref.name⟩ := by
  simp only [variableDiagnostics]
  congr 2
  funext ref
  have h : (variableIn? ref.name u s).isSome =
      (s.customProperties.map (·.name)).contains ref.name := by
    rw [Bool.eq_iff_iff, variableIn?_isSome, Declares, List.contains_iff_mem]
  rw [← h, Option.not_isSome]

/-- Only the check of variables reports them. -/
theorem filter_isUndefined_reports (s : Sheet) (knowledge : Option Registry) :
    (s.reports knowledge).filter isUndefined = s.variableDiagnostics := by
  have hissue : ∀ {d : Diagnostic}, (∀ name, d.issue ≠ .undefinedVariable name) →
      ¬ isUndefined d = true := by
    intro d h
    unfold isUndefined
    split
    · next name hname => exact absurd hname (h name)
    · simp
  have hbraces : (braceDiagnostics s.source).filter isUndefined = [] :=
    List.filter_eq_nil_iff.2 fun d hd => hissue (braceDiagnosticsFrom_issue hd)
  have hproperties : ((knowledge.map s.propertyDiagnostics).getD []).filter isUndefined = [] := by
    cases knowledge with
    | none => rfl
    | some r =>
      refine List.filter_eq_nil_iff.2 fun d hd => hissue ?_
      obtain ⟨decl, -, hdecl⟩ := List.mem_filterMap.1 hd
      exact propertyIssue?_issue hdecl
  have hvariables : s.variableDiagnostics.filter isUndefined = s.variableDiagnostics := by
    refine List.filter_eq_self.2 fun d hd => ?_
    obtain ⟨ref, -, rfl⟩ := List.mem_map.1 hd
    rfl
  rw [reports, List.filter_append, List.filter_append, hbraces, hproperties, hvariables,
    List.nil_append, List.append_nil]

/-! ## The verdict -/

theorem isValid_iff {diagnostics : List Diagnostic} :
    isValid diagnostics = true ↔ ∀ d ∈ diagnostics, d.isError = false := by
  simp [isValid]

/-- Each report of a brace is an error. -/
theorem isValid_braceDiagnostics (text : Text) :
    isValid (braceDiagnostics text) = true ↔ ∃ n, bracesOf (tokens text) = bracePairs n := by
  rw [← (braceDiagnosticsFrom_eq_nil text (tokens text)).1, isValid_iff]
  constructor
  · intro h
    refine List.eq_nil_iff_forall_not_mem.2 fun d hd => ?_
    have herror : d.isError = true := by
      rcases braceDiagnostics_issue hd with hissue | hissue | hissue <;>
        simp [Diagnostic.isError, Diagnostic.severity, hissue, Issue.severity]
    simp [h d hd] at herror
  · intro h d hd
    rw [show braceDiagnostics text = [] from h] at hd
    simp at hd

theorem isValid_variableDiagnostics (s : Sheet) : isValid s.variableDiagnostics = true := by
  rw [isValid_iff]
  intro d hd
  obtain ⟨ref, -, rfl⟩ := List.mem_map.1 hd
  rfl

/-- Of the reports of declarations, those of unknown names are errors. -/
theorem isValid_propertyDiagnostics (s : Sheet) (r : Registry) :
    isValid (s.propertyDiagnostics r) = true ↔
      ∀ d ∈ s.declarations, d.isCustom = false → r.knows d.name = true := by
  rw [isValid_iff]
  constructor
  · intro h decl hdecl hcustom
    by_contra hknown
    have hissue : s.propertyIssue? r decl =
        some ⟨s.range decl.nameSpan, .unknownProperty decl.name⟩ := by
      have hfind : r.find? decl.name = none := by simpa [Registry.knows] using hknown
      simp [propertyIssue?, hcustom, hfind]
    have herror := h _ (List.mem_filterMap.2 ⟨decl, hdecl, hissue⟩)
    simp [Diagnostic.isError, Diagnostic.severity, Issue.severity] at herror
  · intro h d hd
    obtain ⟨decl, hdecl, hissue⟩ := List.mem_filterMap.1 hd
    rcases propertyIssue?_eq_some hissue with ⟨hcustom, hknown, -⟩ | ⟨-, expected, rfl⟩
    · simp [h decl hdecl hcustom] at hknown
    · rfl

/-- **The verdict** depends on the braces and on the names of the declarations alone. -/
theorem isValid_validate (s : Sheet) (knowledge : Option Registry) :
    isValid (s.validate knowledge) = true ↔
      (∃ n, bracesOf (tokens s.source) = bracePairs n) ∧
        ∀ r ∈ knowledge, ∀ d ∈ s.declarations, d.isCustom = false → r.knows d.name = true := by
  have hperm : isValid (s.validate knowledge) = true ↔ isValid (s.reports knowledge) = true := by
    simp only [isValid_iff, (s.validate_perm knowledge).mem_iff]
  have happend : ∀ l l', isValid (l ++ l') = true ↔ isValid l = true ∧ isValid l' = true := by
    simp [isValid]
  rw [hperm, reports, happend, happend, isValid_braceDiagnostics]
  simp only [isValid_variableDiagnostics, and_true]
  refine and_congr_right fun _ => ?_
  cases knowledge with
  | none => simp [isValid]
  | some r => simpa using s.isValid_propertyDiagnostics r

/-! ## The whole validation -/

/-- What the validation of a sheet reports. -/
structure ValidatedExactly (s : Sheet) (knowledge : Option Registry) : Prop where
  /-- Nothing is lost, and nothing is added. -/
  perm : (s.validate knowledge).Perm (s.reports knowledge)
  /-- No range comes before that of an earlier diagnostic. -/
  sorted : (s.validate knowledge).Pairwise fun d e => ¬ e.range.Before d.range
  /-- Equal ranges keep the order of the checks: braces, variables, properties. -/
  stable : ∀ range, (s.validate knowledge).filter (·.range = range) =
    (s.reports knowledge).filter (·.range = range)
  ordered : ∀ d ∈ s.validate knowledge, ¬ d.range.stop.Before d.range.start
  /-- One report for each reference that the sheet cannot resolve, in their order. -/
  undefined : ∀ u, (s.validate knowledge).filter isUndefined =
    ((s.declarations.flatMap Declaration.refs).filter fun ref =>
      (variableIn? ref.name u s).isNone).map fun ref =>
        ⟨s.range ref.span, .undefinedVariable ref.name⟩
  /-- A sheet resolves the names of its declarations, wherever they stand in it. -/
  resolves : ∀ name u, (variableIn? name u s).isSome = true ↔
    ∃ d ∈ s.declarations, d.isCustom = true ∧ d.name = name
  valid_iff : isValid (s.validate knowledge) = true ↔
    (∃ n, bracesOf (tokens s.source) = bracePairs n) ∧
      ∀ r ∈ knowledge, ∀ d ∈ s.declarations, d.isCustom = false → r.knows d.name = true
  /-- Lines and columns are numbers of 32 bits. -/
  fits : ∀ d ∈ s.validate knowledge, d.range.start.Fits ∧ d.range.stop.Fits

/-- **Validation is a lossless, stable merge by range,** with an exact verdict. -/
theorem validate_exact {text : String} (hsize : Text.byteLength text.toList < UInt32.size)
    (knowledge : Option Registry) : (parse text).ValidatedExactly knowledge where
  perm := validate_perm ..
  sorted := (validate_pairwise ..).imp Range.le_iff.1
  stable := filter_validate_range _ _
  ordered := by
    intro d hd
    obtain ⟨span, hle, hrange⟩ := exists_span_of_report ((validate_perm ..).mem_iff.1 hd)
    rw [hrange]
    exact Text.position_mono _ hle
  undefined := by
    intro u
    rw [← variableDiagnostics_eq, ← filter_isUndefined_reports]
    refine filter_validate ?_
    rw [filter_isUndefined_reports]
    exact variableDiagnostics_pairwise text.toList
  resolves := variableIn?_isSome_iff _
  valid_iff := isValid_validate ..
  fits := by
    intro d hd
    obtain ⟨span, -, hrange⟩ := exists_span_of_report ((validate_perm ..).mem_iff.1 hd)
    rw [hrange]
    exact ⟨Text.position_fits hsize _, Text.position_fits hsize _⟩

/-- A variable declared behind its use, in a rule that is left open; one that only a nested
    block declares; and a name that is not known. -/
def openEnded : String := "a\x7bb:var(--x);c\x7b--y:0\x7dd:var(--y)\x7d\ne\x7b--x:0"

/-- One property is known. -/
def oneKnown : Registry := ⟨[{ name := "b", description := "" }], none⟩

theorem reports_openEnded : (parse openEnded).reports (some oneKnown) =
    [⟨⟨⟨0, 14⟩, ⟨0, 15⟩⟩, .nestedBlock⟩, ⟨⟨⟨1, 0⟩, ⟨1, 7⟩⟩, .unclosedBrace⟩,
      ⟨⟨⟨0, 27⟩, ⟨0, 30⟩⟩, .undefinedVariable "--y"⟩,
      ⟨⟨⟨0, 21⟩, ⟨0, 22⟩⟩, .unknownProperty "d"⟩] := by
  decide +kernel

/-- One of the two variables is reported, behind the name of its declaration. -/
theorem openEnded_validated :
    Text.byteLength openEnded.toList < UInt32.size ∧
      (parse openEnded).ValidatedExactly (some oneKnown) ∧
      (parse openEnded).validate (some oneKnown) =
        [⟨⟨⟨0, 14⟩, ⟨0, 15⟩⟩, .nestedBlock⟩, ⟨⟨⟨0, 21⟩, ⟨0, 22⟩⟩, .unknownProperty "d"⟩,
          ⟨⟨⟨0, 27⟩, ⟨0, 30⟩⟩, .undefinedVariable "--y"⟩,
          ⟨⟨⟨1, 0⟩, ⟨1, 7⟩⟩, .unclosedBrace⟩] :=
  ⟨by decide, validate_exact (by decide) _, by
    rw [validate_eq, reports_openEnded]
    simp [List.mergeSort, List.MergeSort.Internal.splitInTwo, Range.le, Position.le]⟩

end Sheet

end StyleServer
