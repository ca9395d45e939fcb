/-
  Which values are offered, and which of them are accepted.

  Completion takes samples from the grammar of a property.  Validation looks at its keywords
  alone.  So a sample is accepted when the property has no list of keywords, or when it is one
  of them.

  * `Definition.mem_samples`, `Sheet.itemsIn_value`: what is offered.
  * `Definition.Coherent`, `Definition.accepts_valueItems_iff`: when all of it is accepted.
  * `PropertyFile.builtin_coherent_iff`: for which of the built-in properties that is so.
  * `Sheet.invalidValue_mem_validate_iff`: which values are reported, and
    `Sheet.chosen_reported_iff`: which of those that are offered.
  * `Sheet.OffersValues`, `Sheet.completionItems_values`: all of this at every offset of a value.
-/
import StyleServer.Completion.Sheet
import StyleServer.Property.Builtin
import StyleServer.Proofs.Property.Registry
import StyleServer.Proofs.Sheet.ReadBack
import StyleServer.Proofs.Sheet.ValueRefs

namespace StyleServer

/-! ## What is offered -/

/-- The data types that are offered as samples. -/
def dataTypes : List (String × List CompletionItem) :=
  [("length", lengthSamples), ("color", colorSamples), ("number", numberSamples)]

namespace CompletionItem

/-- The item is a keyword of a property. -/
def isKeyword (i : CompletionItem) : Bool := i.kind == .keyword

/-- The item is a sample of a data type. -/
def isSample (i : CompletionItem) : Bool := i.kind == .value || i.kind == .color

/-- The item may stand as a whole value. -/
def isValue (i : CompletionItem) : Bool := i.isKeyword || i.isSample

/-- The label holds no comment: as a value, it is read as it is written. -/
def Verbatim (i : CompletionItem) : Prop := withoutComments i.label.toList = i.label.toList

end CompletionItem

namespace Definition

variable {d : Definition} {i : CompletionItem}

theorem mem_samples : i ∈ d.samples ↔ ∃ t ∈ dataTypes, d.acceptsType t.1 = true ∧ i ∈ t.2 := by
  simp only [samples, dataTypes, List.mem_append, List.mem_ite_nil_right, List.mem_cons,
    List.not_mem_nil, or_false, exists_eq_or_imp, exists_eq_left, or_assoc]

theorem isSample_of_mem (h : i ∈ d.samples) : i.isSample = true ∧ i.isKeyword = false := by
  obtain ⟨t, ht, -, hi⟩ := mem_samples.1 h
  have hall : ∀ t ∈ dataTypes, ∀ i ∈ t.2, i.isSample = true ∧ i.isKeyword = false := by decide
  exact hall t ht i hi

/-- Samples hold no comments and no references. -/
theorem chars_of_mem (h : i ∈ d.samples) :
    ∀ c ∈ i.label.toList, isPlain c = true ∧ c ≠ '-' := by
  have hall : ∀ t ∈ dataTypes, ∀ i ∈ t.2, ∃ chars : Text, i.label = String.ofList chars ∧
      chars.all (fun c => isPlain c && c != '-') = true := by
    simp only [dataTypes, lengthSamples, colorSamples, numberSamples, List.map_cons, List.map_nil,
      List.cons_append, List.nil_append, List.forall_mem_cons]
    repeat' apply And.intro
    all_goals first
      | exact ⟨_, rfl, by decide⟩
      | simp
  obtain ⟨t, ht, -, hi⟩ := mem_samples.1 h
  obtain ⟨chars, hlabel, hchars⟩ := hall t ht i hi
  rw [hlabel, String.toList_ofList]
  simpa using hchars

theorem mem_valueItems : i ∈ d.valueItems ↔
    (∃ keyword ∈ d.keywords.getD [], .ofKeyword d keyword = i) ∨ i ∈ d.samples := by
  rw [valueItems, List.mem_append, List.mem_map]

theorem filter_isKeyword_valueItems :
    d.valueItems.filter (·.isKeyword) = (d.keywords.getD []).map (.ofKeyword d) := by
  rw [valueItems, List.filter_append,
    List.filter_eq_self.2 (List.forall_mem_map.2 fun _ _ => rfl),
    List.filter_eq_nil_iff.2 fun i hi => by simp [(isSample_of_mem hi).2], List.append_nil]

theorem filter_isSample_valueItems : d.valueItems.filter (·.isSample) = d.samples := by
  rw [valueItems, List.filter_append,
    List.filter_eq_nil_iff.2 (List.forall_mem_map.2 fun _ _ => Bool.false_ne_true),
    List.filter_eq_self.2 fun i hi => (isSample_of_mem hi).1, List.nil_append]

/-! ## What is accepted -/

/-- All samples of the data types in the grammar are keywords, if there is a list of these. -/
def Coherent (d : Definition) : Prop :=
  ∀ keywords ∈ d.keywords, ∀ t ∈ dataTypes, d.acceptsType t.1 = true → ∀ i ∈ t.2, i.label ∈ keywords

theorem accepts_iff {value : String} :
    d.accepts value = true ↔ ∀ keywords ∈ d.keywords, value ∈ keywords := by
  unfold accepts
  split
  · next keywords h => simp [h]
  · next h => simp [h]

theorem accepts_keyword {keyword : String} (h : keyword ∈ d.keywords.getD []) :
    d.accepts keyword = true := by
  rw [accepts_iff]
  intro keywords hk
  rwa [hk, Option.getD_some] at h

/-- **All that is offered is accepted** exactly when the samples are keywords. -/
theorem accepts_valueItems_iff :
    (∀ i ∈ d.valueItems, d.accepts i.label = true) ↔ d.Coherent := by
  constructor
  · intro h keywords hk t ht htype i hi
    have hmem : i ∈ d.valueItems := mem_valueItems.2 (.inr (mem_samples.2 ⟨t, ht, htype, hi⟩))
    exact accepts_iff.1 (h i hmem) keywords hk
  · intro h i hi
    rcases mem_valueItems.1 hi with ⟨keyword, hkeyword, rfl⟩ | hi
    · exact accepts_keyword hkeyword
    · obtain ⟨t, ht, htype, hi⟩ := mem_samples.1 hi
      exact accepts_iff.2 fun keywords hk => h keywords hk t ht htype i hi

end Definition

/-! ## The built-in properties -/

namespace Registry

/-- What is known by a name in the built-in registry is a built-in property. -/
theorem mem_of_builtin_find? {name : String} {d : Definition} (h : builtin.find? name = some d) :
    d ∈ PropertyFile.builtin.properties := by
  rw [builtin, addFile, find?_foldl_insert] at h
  rcases Option.or_eq_some_iff.1 h with h | ⟨-, h⟩
  · exact List.mem_reverse.1 (List.mem_of_find?_eq_some h)
  · simp [empty, find?] at h

end Registry

namespace Definition

variable {d : Definition} {grammar : Text}

theorem acceptsType_ofList (h : d.grammar = some (String.ofList grammar)) (dataType : String) :
    d.acceptsType dataType = Text.occursIn ('<' :: (dataType.toList ++ ['>'])) grammar := by
  have hneedle : ("<" ++ dataType ++ ">").toList = '<' :: (dataType.toList ++ ['>']) := by simp
  rw [acceptsType, h]
  dsimp only
  rw [hneedle, String.toList_ofList]

theorem coherent_of_none (h : d.keywords = none) : d.Coherent := by
  simp [Coherent, h]

theorem coherent_iff {keywords : List String} (hk : d.keywords = some keywords)
    (hg : d.grammar = some (String.ofList grammar)) :
    d.Coherent ↔ ∀ t ∈ dataTypes,
      Text.occursIn ('<' :: (t.1.toList ++ ['>'])) grammar = true →
        ∀ i ∈ t.2, i.label ∈ keywords := by
  simp only [Coherent, hk, acceptsType_ofList hg, Option.mem_def, Option.some.injEq, forall_eq']

end Definition

/-- The built-in properties with a list of keywords that lacks samples of their data types. -/
def mixedNames : List String := ["background-size", "flex-basis", "transition-timing-function"]

set_option maxRecDepth 4000 in
theorem PropertyFile.builtin_coherent_iff :
    ∀ d ∈ PropertyFile.builtin.properties, d.Coherent ↔ d.name ∉ mixedNames := by
  simp only [builtin, boxProperties, placementProperties, flexProperties, backgroundProperties,
    textProperties, motionProperties, unityProperties, List.forall_mem_append, List.forall_mem_cons]
  repeat' apply And.intro
  all_goals first
    | exact iff_of_true (Definition.coherent_of_none rfl) (by decide +kernel)
    | exact (Definition.coherent_iff rfl rfl).trans (by decide +kernel)
    | simp

namespace Sheet

variable {s : Sheet} {r : Registry} {name : String} {d : Definition}

/-- Variables are no keywords and no samples. -/
theorem kind_of_mem_variableItems {i : CompletionItem} (h : i ∈ s.variableItems) :
    i.isKeyword = false ∧ i.isSample = false := by
  unfold variableItems at h
  split at h
  · obtain rfl := List.mem_singleton.1 h
    decide
  · obtain ⟨name, -, rfl⟩ := List.mem_map.1 h
    exact ⟨rfl, rfl⟩

theorem itemsIn_value (s : Sheet) (hd : r.find? name = some d) :
    s.itemsIn r (.value name) = d.valueItems ++ s.variableItems := by
  rw [itemsIn, hd]
  rfl

theorem keywords_itemsIn (s : Sheet) (hd : r.find? name = some d) :
    ((s.itemsIn r (.value name)).filter (·.isKeyword)).map (·.label) = d.keywords.getD [] := by
  rw [itemsIn_value s hd, List.filter_append, Definition.filter_isKeyword_valueItems,
    List.filter_eq_nil_iff.2 fun i hi => by simp [(kind_of_mem_variableItems hi).1],
    List.append_nil, List.map_map]
  exact List.map_id _

theorem samples_itemsIn (s : Sheet) (hd : r.find? name = some d) :
    (s.itemsIn r (.value name)).filter (·.isSample) = d.samples := by
  rw [itemsIn_value s hd, List.filter_append, Definition.filter_isSample_valueItems,
    List.filter_eq_nil_iff.2 fun i hi => by simp [(kind_of_mem_variableItems hi).2],
    List.append_nil]

theorem completionItems_of_context {text : String} {o : Nat} {context : CompletionContext}
    (h : completionContext text.toList o = .ok context) (r : Registry) :
    (parse text).completionItems r o = .ok ((parse text).itemsIn r context) := by
  rw [completionItems, show (parse text).source = text.toList from rfl, h]
  rfl

/-! ## What is reported -/

/-- A reference has dashes in its name. -/
theorem variableRefsFrom_eq_nil {text : Text} (h : '-' ∉ text) (inWord : Bool) (offset : Nat) :
    variableRefsFrom inWord offset text = [] := by
  induction text generalizing inWord offset with
  | nil => simp [variableRefsFrom]
  | cons c cs ih =>
    have hnone : referenceAt? (c :: cs) = none := by
      rw [Option.eq_none_iff_forall_ne_some]
      rintro ⟨opening, name, rest⟩ href
      obtain ⟨htext, -, @⟨chars, -, -⟩, -⟩ := referenceAt?_eq_some_iff.1 href
      exact h (by simp [htext])
    rw [variableRefsFrom_none (by simp [hnone])]
    exact ih (fun hc => h (List.mem_cons_of_mem _ hc)) _ _

/-- What is read from the value of a declaration, as it is written. -/
theorem declaration_written {text : Text} {e : Declaration} (h : e ∈ (ofText text).declarations) :
    e.value = String.ofList (withoutComments (e.rawValue text)) ∧
      e.refs = Declaration.refsOf ⟨e.valueSpan.start, e.rawValue text⟩ := by
  obtain ⟨f, hf, h⟩ := declaration_origin h
  obtain ⟨before, behind, hcut, -, rfl⟩ := Declaration.ofFragment?_parts h
  have hpart := (Fragment.trim_partOf behind).trans (Fragment.cutAt_eq_some hcut).2.1
  have hraw : (Declaration.ofParts before.trim behind.trim).rawValue text = behind.trim.chars := by
    rw [Declaration.rawValue, Declaration.ofParts, (hpart.in_text hf.in_text).slice?_span]
    rfl
  rw [hraw]
  exact ⟨rfl, rfl⟩

/-- **A value is reported** when a declaration has it that uses no variables, and the definition
    of its property does not accept it. -/
theorem invalidValue_mem_validate_iff {range : Range} {value : String} {expected : List String} :
    ⟨range, .invalidValue value name expected⟩ ∈ s.validate (some r) ↔
      ∃ e ∈ s.declarations, (e.name = name ∧ e.value = value) ∧ e.isCustom = false ∧
        e.usesVariables = false ∧ range = s.range e.valueSpan ∧
        ∃ d, r.find? name = some d ∧ d.accepts value = false ∧ expected = d.keywords.getD [] := by
  rw [(s.validate_perm _).mem_iff]
  constructor
  · intro h
    rcases List.mem_append.1 h with h | h
    · rcases List.mem_append.1 h with h | h
      · rcases braceDiagnostics_issue h with h | h | h <;> cases h
      · obtain ⟨ref, -, h⟩ := List.mem_map.1 h
        cases h
    · obtain ⟨e, he, hissue⟩ := List.mem_filterMap.1 h
      unfold propertyIssue? at hissue
      split at hissue
      · cases hissue
      · next hcustom =>
        split at hissue
        · cases hissue
        · next d hd =>
          obtain ⟨hrejected, hissue⟩ := Option.ite_none_left_eq_some.1 hissue
          simp only [Bool.or_eq_true, not_or, Bool.not_eq_true] at hrejected
          cases hissue
          exact ⟨e, he, ⟨rfl, rfl⟩, by simpa using hcustom, hrejected.1, rfl, d, hd,
            hrejected.2, rfl⟩
  · rintro ⟨e, he, ⟨rfl, rfl⟩, hcustom, hvariables, rfl, d, hd, haccepts, rfl⟩
    refine List.mem_append_right _ (List.mem_filterMap.2 ⟨e, he, ?_⟩)
    simp [propertyIssue?, hcustom, hd, hvariables, haccepts]

/-- What the items at a value are like. -/
structure OffersValues (r : Registry) (name : String) (d : Definition)
    (items : List CompletionItem) : Prop where
  /-- One item for each keyword, in their order. -/
  keywords_eq : (items.filter (·.isKeyword)).map (·.label) = d.keywords.getD []
  /-- The samples are those of the data types that the grammar mentions. -/
  samples : ∀ i, i ∈ items ∧ i.isSample = true ↔
    ∃ t ∈ dataTypes, d.acceptsType t.1 = true ∧ i ∈ t.2
  keywords_accepted : ∀ i ∈ items, i.isKeyword = true → d.accepts i.label = true
  /-- All that is offered as a value is accepted, but for samples beside keywords. -/
  accepted_iff : (∀ i ∈ items, i.isValue = true → d.accepts i.label = true) ↔ d.Coherent
  samples_verbatim : ∀ i ∈ items, i.isSample = true → i.Verbatim
  /-- **Chosen as the whole value,** in any text, an item is reported exactly when it is not
      accepted; but the values of variables are not checked. -/
  chosen : ∀ i ∈ items, i.isValue = true → i.Verbatim → ∀ (text : String),
    ∀ e ∈ (parse text).declarations, e.name = name → e.rawValue text.toList = i.label.toList →
      e.value = i.label ∧
      ((∃ report ∈ (parse text).validate (some r), ∃ expected,
          report.issue = .invalidValue i.label name expected) ↔
        d.accepts i.label = false ∧ e.isCustom = false)
  /-- Of the built-in properties, three offer what they do not accept. -/
  builtin : r = .builtin → (d.Coherent ↔ name ∉ mixedNames)

/-- The items of a value that are offered as a whole value. -/
theorem mem_itemsIn_value {i : CompletionItem} (hd : r.find? name = some d) :
    i ∈ s.itemsIn r (.value name) ∧ i.isValue = true ↔ i ∈ d.valueItems := by
  rw [itemsIn_value s hd, List.mem_append]
  constructor
  · rintro ⟨hi | hi, hvalue⟩
    · exact hi
    · have hno := kind_of_mem_variableItems hi
      simp [CompletionItem.isValue, hno] at hvalue
  · intro hi
    refine ⟨.inl hi, ?_⟩
    rcases Definition.mem_valueItems.1 hi with ⟨keyword, -, rfl⟩ | hi
    · rfl
    · simp [CompletionItem.isValue, (Definition.isSample_of_mem hi).1]

/-- An item that is chosen as the whole value is reported exactly when it is not accepted. -/
theorem chosen_reported_iff {i : CompletionItem} {text : String} {e : Declaration}
    (hd : r.find? name = some d) (hi : i ∈ d.valueItems) (hverbatim : i.Verbatim)
    (he : e ∈ (parse text).declarations) (hname : e.name = name)
    (hraw : e.rawValue text.toList = i.label.toList) :
    e.value = i.label ∧
      ((∃ report ∈ (parse text).validate (some r), ∃ expected,
          report.issue = .invalidValue i.label name expected) ↔
        d.accepts i.label = false ∧ e.isCustom = false) := by
  obtain ⟨hvalue, hrefs⟩ := declaration_written he
  rw [hraw] at hrefs
  rw [hraw, hverbatim, String.ofList_toList] at hvalue
  refine ⟨hvalue, ?_, ?_⟩
  · rintro ⟨⟨range, issue⟩, hreport, expected, rfl⟩
    obtain ⟨e', -, ⟨hname', -⟩, hcustom, -, -, d', hd', hrejected, -⟩ :=
      invalidValue_mem_validate_iff.1 hreport
    obtain rfl : d = d' := Option.some.inj (hd.symm.trans hd')
    refine ⟨hrejected, ?_⟩
    rw [Declaration.isCustom, hname, ← hname']
    exact hcustom
  · rintro ⟨hrejected, hcustom⟩
    -- Keywords are accepted, so the item is a sample and makes no reference.
    have hsample : i ∈ d.samples := by
      rcases Definition.mem_valueItems.1 hi with ⟨keyword, hkeyword, rfl⟩ | hi
      · have haccepts : d.accepts (CompletionItem.ofKeyword d keyword).label = true :=
          Definition.accepts_keyword hkeyword
        rw [hrejected] at haccepts
        cases haccepts
      · exact hi
    have hnone : e.usesVariables = false := by
      have hdash : '-' ∉ i.label.toList := fun hc => (Definition.chars_of_mem hsample _ hc).2 rfl
      have hnil := variableRefsFrom_eq_nil hdash false
      rw [Declaration.usesVariables, hrefs, Declaration.refsOf, variableRefs, hnil]
      rfl
    exact ⟨_, invalidValue_mem_validate_iff.2
      ⟨e, he, ⟨hname, hvalue⟩, hcustom, hnone, rfl, d, hd, hrejected, rfl⟩, _, rfl⟩

/-- **What is offered for a value,** and when all of it is accepted. -/
theorem completionItems_values {text : String} {o : Nat}
    (hcontext : completionContext text.toList o = .ok (.value name))
    (hd : r.find? name = some d) :
    ∃ items, (parse text).completionItems r o = .ok items ∧ OffersValues r name d items := by
  refine ⟨_, completionItems_of_context hcontext r, ?_⟩
  exact {
    keywords_eq := keywords_itemsIn _ hd
    samples := by
      intro i
      rw [← Definition.mem_samples, ← samples_itemsIn _ hd, List.mem_filter]
    keywords_accepted := by
      intro i hi hkeyword
      refine Definition.accepts_keyword ?_
      rw [← keywords_itemsIn (parse text) hd]
      exact List.mem_map_of_mem (List.mem_filter.2 ⟨hi, hkeyword⟩)
    accepted_iff := by
      rw [← Definition.accepts_valueItems_iff]
      simp only [← mem_itemsIn_value (s := parse text) hd, and_imp]
    samples_verbatim := by
      intro i hi hsample
      have hmem : i ∈ d.samples := by
        rw [← samples_itemsIn _ hd]
        exact List.mem_filter.2 ⟨hi, hsample⟩
      exact withoutComments_plain fun c hc => (Definition.chars_of_mem hmem c hc).1
    chosen := fun i hi hvalue hverbatim other e he hname hraw =>
      chosen_reported_iff hd ((mem_itemsIn_value hd).1 ⟨hi, hvalue⟩) hverbatim he hname hraw
    builtin := by
      rintro rfl
      have hname : d.name = name := by simpa using List.find?_some hd
      rw [← hname]
      exact PropertyFile.builtin_coherent_iff d (Registry.mem_of_builtin_find? hd) }

/-- A built-in property that takes lengths, with `auto` for its only keyword. -/
def flexBasis : Definition where
  name := "flex-basis"
  grammar := some "<length> | auto"
  description := "Initial main size of a flex item, on the main flex axis"
  animatable := .fully
  keywords := some ["auto"]

theorem builtin_flexBasis : Registry.builtin.find? "flex-basis" = some flexBasis := by
  rw [Registry.builtin, Registry.addFile, Registry.find?_foldl_insert]
  decide +kernel

theorem flexBasis_values :
    completionContext "a\x7bflex-basis:".toList 13 = .ok (.value "flex-basis") ∧
      Registry.builtin.find? "flex-basis" = some flexBasis ∧
      ∃ items, (parse "a\x7bflex-basis:").completionItems .builtin 13 = .ok items ∧
        OffersValues .builtin "flex-basis" flexBasis items :=
  ⟨by decide +kernel, builtin_flexBasis,
    completionItems_values (by decide +kernel) builtin_flexBasis⟩

/-- A length is offered for it.  It is not accepted, and reported when it is chosen. -/
theorem flexBasis_rejected :
    (¬ ∀ (text : String) (o : Nat) (name : String) (d : Definition) (items : List CompletionItem),
      completionContext text.toList o = .ok (.value name) → Registry.builtin.find? name = some d →
      (parse text).completionItems .builtin o = .ok items →
      ∀ i ∈ items, i.isValue = true → d.accepts i.label = true) ∧
    ⟨⟨⟨0, 13⟩, ⟨0, 16⟩⟩, .invalidValue "0px" "flex-basis" ["auto"]⟩ ∈
      (parse "a\x7bflex-basis:0px\x7d").validate (some .builtin) := by
  refine ⟨fun h => ?_, ?_⟩
  · have hcontext : completionContext "a\x7bflex-basis:".toList 13 = .ok (.value "flex-basis") := by
      decide +kernel
    have hoffered :
        CompletionItem.sample .value "Length in pixels" "0px" ∈ flexBasis.valueItems := by
      decide +kernel
    obtain ⟨hmem, hvalue⟩ := (mem_itemsIn_value builtin_flexBasis).2 hoffered
    have haccepts := h _ 13 _ _ _ hcontext builtin_flexBasis
      (completionItems_of_context hcontext .builtin) _ hmem hvalue
    exact absurd haccepts (by decide)
  · have hread : (⟨"flex-basis", "0px", [], ⟨2, 12⟩, ⟨13, 16⟩, ⟨2, 16⟩⟩ : Declaration) ∈
        (parse "a\x7bflex-basis:0px\x7d").declarations := by
      decide +kernel
    exact invalidValue_mem_validate_iff.2 ⟨_, hread, ⟨rfl, rfl⟩, by decide, rfl, by decide +kernel,
      flexBasis, builtin_flexBasis, by decide, rfl⟩

end Sheet

end StyleServer
