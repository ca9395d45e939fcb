/-
  Validating a text and outlining it, at byte offsets.

  * `bracesIn`, `variablesIn`, `propertiesIn`, `validateIn`, `outlineIn`: what is wrong with a
    text and what its symbols are, with all ranges looked up in the table of its lines.
  * `braceStep_eq`, `bracesFrom_eq`: one token, then all of them; the depth never falls below
    zero.
  * `Text.ReadsSafely`, `reading_never_fails`: on no text does a slice, an index or a difference
    fail, from the tokens to the outline.
-/
import StyleServer.Diagnostic.Document
import StyleServer.Outline
import StyleServer.Proofs.Bytewise.Lines
import StyleServer.Proofs.Bytewise.Parse
import StyleServer.Proofs.Piece.Partition

namespace StyleServer

/-! ## Braces -/

/-- What a token at a depth is reported for, and the depth behind it. -/
def braceStep (index : LineIndex) (depth : Nat) (t : Token) : Checked (List Diagnostic × Nat) :=
  match t.kind with
  | .mark .openBrace =>
    if depth = 1 then do
      let range ← index.range t.span
      return ([⟨range, .nestedBlock⟩], depth + 1)
    else .ok ([], depth + 1)
  | .mark .closeBrace =>
    if depth = 0 then do
      let line ← index.lineOf t.span.start
      let range ← index.lineRange line
      return ([⟨range, .unmatchedClosingBrace⟩], depth)
    else do
      let depth ← Checked.minus depth 1
      return ([], depth)
  | .mark .semicolon | .text => .ok ([], depth)

/-- The diagnostics of tokens that begin at a depth. -/
def bracesFrom (index : LineIndex) (depth : Nat) : List Token → Checked (List Diagnostic)
  | [] =>
    if 0 < depth then do
      let range ← index.lineRange (index.starts.length - 1)
      return [⟨range, .unclosedBrace⟩]
    else .ok []
  | t :: ts => do
    let (found, depth) ← braceStep index depth t
    let rest ← bracesFrom index depth ts
    return found ++ rest

/-- The diagnostics of a text's braces. -/
def bracesIn (text : Text) : Checked (List Diagnostic) := do
  let ts ← tokenize text
  bracesFrom (.of text) 0 ts

theorem braceStep_eq {text : Text} {t : Token} (h : text.isBoundary t.span.start = true)
    (depth : Nat) :
    braceStep (.of text) depth t =
      .ok ((braceIssue? text depth t).toList, depthAfter depth t) := by
  have hline := LineIndex.lineOf_boundary h
  unfold braceStep braceIssue? depthAfter
  cases t.kind with
  | text => rfl
  | mark m =>
    cases m with
    | openBrace =>
      by_cases hdepth : depth = 1
      · simp [hdepth, LineIndex.range_eq]
      · simp [hdepth]
    | closeBrace =>
      by_cases hdepth : depth = 0
      · simp [hdepth, hline, LineIndex.lineRange_eq]
      · have hminus : Checked.minus depth 1 = .ok (depth - 1) := Checked.minus_of_le (by omega)
        simp [hdepth, hminus]
    | semicolon => rfl

theorem bracesFrom_eq {text : Text} {ts : List Token}
    (h : ∀ t ∈ ts, text.isBoundary t.span.start = true) (depth : Nat) :
    bracesFrom (.of text) depth ts = .ok (braceDiagnosticsFrom text depth ts) := by
  induction ts generalizing depth with
  | nil =>
    rw [bracesFrom, braceDiagnosticsFrom, LineIndex.length_starts, LineIndex.lineRange_eq]
    split <;> rfl
  | cons t ts ih =>
    obtain ⟨ht, hts⟩ := List.forall_mem_cons.1 h
    rw [bracesFrom, braceStep_eq ht, Checked.ok_bind]
    show bracesFrom _ _ ts >>= _ = _
    rw [ih hts]
    rfl

/-- **Braces are checked** without a failure. -/
theorem bracesIn_eq (text : Text) : bracesIn text = .ok (braceDiagnostics text) := by
  rw [bracesIn, tokenize_eq, Checked.ok_bind]
  exact bracesFrom_eq (fun t ht => (tokens_span ht).2.1) 0

/-! ## Variables and properties -/

/-- References to variables that a sheet does not declare. -/
def variablesIn (s : Sheet) : Checked (List Diagnostic) :=
  let declared := s.customProperties.map (·.name)
  ((s.declarations.flatMap Declaration.refs).filter fun ref => !declared.contains ref.name).mapM
    fun ref => do
      let range ← (LineIndex.of s.source).range ref.span
      return ⟨range, .undefinedVariable ref.name⟩

/-- What is wrong with one declaration, given the known properties. -/
def propertyIn (s : Sheet) (r : Registry) (d : Declaration) : Checked (Option Diagnostic) :=
  if d.isCustom then .ok none
  else match r.find? d.name with
  | none => do
    let range ← (LineIndex.of s.source).range d.nameSpan
    return some ⟨range, .unknownProperty d.name⟩
  | some definition =>
    if d.usesVariables || definition.accepts d.value then .ok none
    else do
      let range ← (LineIndex.of s.source).range d.valueSpan
      return some ⟨range, .invalidValue d.value d.name (definition.keywords.getD [])⟩

/-- What is wrong with the declarations, given what is known of properties. -/
def propertiesIn (s : Sheet) : Option Registry → Checked (List Diagnostic)
  | none => .ok []
  | some r => do
    let found ← s.declarations.mapM (propertyIn s r)
    return found.filterMap id

/-- All diagnostics of a sheet, by range. -/
def validateIn (s : Sheet) (knowledge : Option Registry) : Checked (List Diagnostic) := do
  let braces ← bracesIn s.source
  let undefined ← variablesIn s
  let properties ← propertiesIn s knowledge
  return (braces ++ undefined ++ properties).mergeSort fun d e => d.range.le e.range

theorem variablesIn_eq (s : Sheet) : variablesIn s = .ok s.variableDiagnostics := by
  refine Checked.mapM_eq_ok ?_ _
  intro ref
  rw [LineIndex.range_eq]
  rfl

theorem propertyIn_eq (s : Sheet) (r : Registry) (d : Declaration) :
    propertyIn s r d = .ok (s.propertyIssue? r d) := by
  unfold propertyIn Sheet.propertyIssue?
  simp only [LineIndex.range_eq, Checked.ok_bind, Checked.pure_eq_ok]
  by_cases hcustom : d.isCustom = true
  · rw [if_pos hcustom, if_pos hcustom]
  · rw [if_neg hcustom, if_neg hcustom]
    cases r.find? d.name with
    | none => rfl
    | some definition =>
      dsimp only
      split <;> rfl

theorem propertiesIn_eq (s : Sheet) (knowledge : Option Registry) :
    propertiesIn s knowledge = .ok ((knowledge.map s.propertyDiagnostics).getD []) := by
  cases knowledge with
  | none => rfl
  | some r =>
    rw [propertiesIn, Checked.mapM_eq_ok (propertyIn_eq s r), Checked.ok_bind,
      Checked.pure_eq_ok, List.filterMap_map]
    rfl

theorem validateIn_eq (s : Sheet) (knowledge : Option Registry) :
    validateIn s knowledge = .ok (s.validate knowledge) := by
  rw [validateIn, bracesIn_eq, variablesIn_eq, propertiesIn_eq]
  rfl

/-! ## The outline -/

/-- The symbol of a declaration of a sheet. -/
def declarationSymbolIn (s : Sheet) (d : Declaration) : Checked DeclarationSymbol := do
  let range ← (LineIndex.of s.source).range d.span
  let selection ← (LineIndex.of s.source).range d.nameSpan
  return ⟨d.name, d.value, d.isCustom, range, selection⟩

/-- The symbol of a rule of a sheet. -/
def ruleSymbolIn (s : Sheet) (r : Rule) : Checked RuleSymbol := do
  let children ← r.declarations.mapM (declarationSymbolIn s)
  let range ← (LineIndex.of s.source).range r.span
  let selection ← (LineIndex.of s.source).range (Sheet.selectionOf r)
  return ⟨r.selectorText, r.closed, range, selection, children⟩

/-- The symbols of a sheet, in order. -/
def outlineIn (s : Sheet) : Checked (List RuleSymbol) := s.rules.mapM (ruleSymbolIn s)

theorem declarationSymbolIn_eq (s : Sheet) (d : Declaration) :
    declarationSymbolIn s d = .ok (s.declarationSymbol d) := by
  rw [declarationSymbolIn, LineIndex.range_eq, LineIndex.range_eq]
  rfl

theorem ruleSymbolIn_eq (s : Sheet) (r : Rule) : ruleSymbolIn s r = .ok (s.ruleSymbol r) := by
  rw [ruleSymbolIn, Checked.mapM_eq_ok (declarationSymbolIn_eq s), LineIndex.range_eq,
    LineIndex.range_eq]
  rfl

theorem outlineIn_eq (s : Sheet) : outlineIn s = .ok s.outline :=
  Checked.mapM_eq_ok (ruleSymbolIn_eq s) s.rules

/-! ## A whole text -/

/-- What reading a text comes to, from its tokens to its outline: a result without a fault. -/
structure Text.ReadsSafely (text : Text) : Prop where
  /-- A slice does fail where an end is out of range, out of order or inside a character. -/
  slices : ∀ span, (∃ chars, Checked.slice text span = .ok chars) ↔ span.start ≤ span.stop ∧
    text.isBoundary span.start = true ∧ text.isBoundary span.stop = true
  tokenized : tokenize text = .ok (tokens text)
  parsed : parseTokens text = .ok (Sheet.ofText text)
  braces : bracesIn text = .ok (braceDiagnostics text)
  undefined : (parseTokens text >>= variablesIn) = .ok (Sheet.ofText text).variableDiagnostics
  validated : ∀ knowledge, (parseTokens text >>= fun s => validateIn s knowledge) =
    .ok ((Sheet.ofText text).validate knowledge)
  outlined : (parseTokens text >>= outlineIn) = .ok (Sheet.ofText text).outline
  /-- The table of lines can be searched, and any offset has a position. -/
  starts : (LineIndex.of text).starts.Pairwise (· < ·)
  positions : ∀ offset, (LineIndex.of text).position offset = .ok (text.position offset)
  /-- The comments of the text, read as a value, lie in it one behind the other. -/
  comments : ∃ spans, commentSpansIn text = .ok spans ∧ CommentsInside text spans
  /-- The loops end: each token takes the scanner further, wherever it stands, and each step
      the search for comments. -/
  scanner_advances : ∀ s t s', nextToken text s = .ok (some (t, s')) →
    s.pos < s'.pos ∧ s.pos < text.byteLength
  comments_advance : ∀ pos lineStart next, pos < text.byteLength →
    commentStep text pos lineStart = .ok next → pos < next.pos

/-- **Reading never fails:** no slice, index or difference does on any text. -/
theorem reading_never_fails (text : Text) : text.ReadsSafely where
  slices _ := Checked.exists_slice_iff
  tokenized := tokenize_eq text
  parsed := parseTokens_eq text
  braces := bracesIn_eq text
  undefined := by
    rw [parseTokens_eq, Checked.ok_bind, variablesIn_eq]
  validated := by
    intro knowledge
    rw [parseTokens_eq, Checked.ok_bind, validateIn_eq]
  outlined := by
    rw [parseTokens_eq, Checked.ok_bind, outlineIn_eq]
  starts := starts_increasing text
  positions := LineIndex.position_eq text
  comments := commentSpansIn_inside text
  scanner_advances _ _ _ := nextToken_advances
  comments_advance _ _ _ := commentStep_advances

end StyleServer
