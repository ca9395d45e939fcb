/-
  Written sheets are read as they are written.

  * `Entry.contents_render`, `Block.contents_render`, `Directive.contents_render`: the
    clauses of a statement.
  * `read_entries`: the run through the declarations of a block.
  * `Statement.read`: one statement is one item, and leaves no block open.
  * `read_statements`: by induction along the statements, a whole sheet.
-/
import StyleServer.Proofs.Sheet.Level
import StyleServer.Proofs.Sheet.ReadBack
import Mathlib.Data.List.Forall2

namespace StyleServer

namespace Written

/-! ## The clauses of a statement -/

namespace Entry

theorem body_trimmed (e : Entry) : Trimmed isBlank e.body := by
  have h := e.name.trimmed.append (e.afterName.chars ++ ':' :: e.beforeValue.chars) e.value.trimmed
  simpa [body] using h

theorem plainClause (e : Entry) :
    PlainClause (e.before.chars ++ (e.body ++ e.afterValue.chars)) := by
  have hname : ∀ c ∈ e.name.chars, isPlain c = true := fun c hc =>
    isPlain_of_isNameChar (e.name.named c hc).1
  have hbody : ∀ c ∈ e.body, isPlain c = true :=
    List.forall_mem_append.2 ⟨hname, List.forall_mem_append.2 ⟨e.afterName.isPlain,
      List.forall_mem_cons.2 ⟨by decide, List.forall_mem_append.2
        ⟨e.beforeValue.isPlain, e.value.isPlain⟩⟩⟩⟩
  exact .of_plain (List.forall_mem_append.2 ⟨e.before.isPlain,
    List.forall_mem_append.2 ⟨hbody, e.afterValue.isPlain⟩⟩)

/-- What the clause of a declaration says. -/
def clause (e : Entry) : Option Text × Text × Mark := (some e.body, e.afterValue.chars, .semicolon)

theorem contents_render (e : Entry) : Text.contents e.render = [e.clause] :=
  e.plainClause.contents_eq e.body_trimmed.ascii e.before.blank e.afterValue.blank .semicolon

theorem endWithMark (e : Entry) : Piece.EndWithMark (Text.pieces e.render) :=
  e.plainClause.endWithMark .semicolon

theorem endWithMark_all (entries : List Entry) :
    Piece.EndWithMark (Text.pieces (entries.flatMap render)) := by
  induction entries with
  | nil => simp [Piece.EndWithMark, Text.pieces, Text.piecesFrom]
  | cons e entries ih => exact Text.endWithMark_append e.endWithMark ih

/-- The clauses of declarations, in front of other text. -/
theorem contents_append (entries : List Entry) (rest : Text) :
    Text.contents (entries.flatMap render ++ rest) = entries.map clause ++ Text.contents rest := by
  induction entries with
  | nil => rfl
  | cons e entries ih =>
    rw [List.flatMap_cons, List.append_assoc, Text.contents_append e.endWithMark, e.contents_render,
      ih, List.map_cons]
    rfl

end Entry

theorem Further.isPlain (f : Further) : ∀ c ∈ f.render, isPlain c = true :=
  List.forall_mem_append.2 ⟨f.beforeComma.isPlain, List.forall_mem_cons.2
    ⟨by decide, List.forall_mem_append.2 ⟨f.afterComma.isPlain, f.selector.isPlain⟩⟩⟩

namespace Block

theorem clause_trimmed (b : Block) : Trimmed isBlank b.clause := by
  have h : ∀ {text : Text}, Trimmed isBlank text → ∀ further : List Further,
      Trimmed isBlank (text ++ further.flatMap Further.render) := by
    intro text htext further
    induction further generalizing text with
    | nil => simpa using htext
    | cons f further ih =>
      have hf := htext.append (f.beforeComma.chars ++ ',' :: f.afterComma.chars) f.selector.trimmed
      simpa [Further.render] using ih hf
  exact h b.first.trimmed b.further

theorem plainClause (b : Block) :
    PlainClause (b.before.chars ++ (b.clause ++ b.beforeOpening.chars)) := by
  have hfurther : ∀ c ∈ b.further.flatMap Further.render, isPlain c = true := by
    intro c hc
    obtain ⟨f, -, hc⟩ := List.mem_flatMap.1 hc
    exact f.isPlain c hc
  have hclause : ∀ c ∈ b.clause, isPlain c = true :=
    List.forall_mem_append.2 ⟨b.first.isPlain, hfurther⟩
  exact .of_plain (List.forall_mem_append.2 ⟨b.before.isPlain,
    List.forall_mem_append.2 ⟨hclause, b.beforeOpening.isPlain⟩⟩)

/-- The clauses of a rule: that of the selectors, those of the declarations, and one without a
    body. -/
theorem contents_render (b : Block) : ∃ gap, Text.contents b.render =
    (some b.clause, b.beforeOpening.chars, .openBrace) ::
      (b.entries.map Entry.clause ++ [(none, gap, .closeBrace)]) := by
  obtain ⟨gap, hgap⟩ := PlainClause.contents_blank b.beforeClosing.blank .closeBrace
  refine ⟨gap, ?_⟩
  have hopen := b.plainClause.contents_eq b.clause_trimmed.ascii b.before.blank
    b.beforeOpening.blank .openBrace
  have happend := Text.contents_append (b.plainClause.endWithMark .openBrace)
    (b.entries.flatMap Entry.render ++ (b.beforeClosing.chars ++ [Mark.closeBrace.char]))
  rw [hopen, Entry.contents_append, hgap] at happend
  exact happend

theorem endWithMark (b : Block) : Piece.EndWithMark (Text.pieces b.render) := by
  have hopen := b.plainClause.endWithMark .openBrace
  have hclose := (PlainClause.of_plain b.beforeClosing.isPlain).endWithMark .closeBrace
  have hentries := Entry.endWithMark_all b.entries
  exact Text.endWithMark_append hopen (Text.endWithMark_append hentries hclose)

end Block

namespace Directive

theorem body_trimmed (i : Directive) : Trimmed isBlank i.body := by
  have hat : Trimmed isBlank ['@'] := .singleton (by decide)
  cases hw : i.wrapping with
  | none =>
    have h := hat.append (['i', 'm', 'p', 'o', 'r', 't'] ++ (i.afterKeyword.chars ++
      i.quote.char :: i.path.chars)) (.singleton i.quote.isBlank)
    simpa [body, opening, closing, hw] using h
  | some w =>
    have hparen : Trimmed isBlank [')'] := .singleton (by decide)
    have h := hat.append (['i', 'm', 'p', 'o', 'r', 't'] ++ (i.afterKeyword.chars ++ (i.opening ++
      i.quote.char :: (i.path.chars ++ i.quote.char :: w.beforeClosing.chars)))) hparen
    simpa [body, closing, hw] using h

theorem opening_isPlain (i : Directive) : ∀ c ∈ i.opening, isPlain c = true := by
  cases hw : i.wrapping with
  | none => simp [opening, hw]
  | some w =>
    simp only [opening, hw]
    exact List.forall_mem_append.2 ⟨List.all_eq_true.1 (by decide),
      List.forall_mem_append.2 ⟨w.beforeOpening.isPlain,
        List.forall_mem_append.2 ⟨List.all_eq_true.1 (by decide), w.afterOpening.isPlain⟩⟩⟩

theorem closing_isPlain (i : Directive) : ∀ c ∈ i.closing, isPlain c = true := by
  cases hw : i.wrapping with
  | none => simp [closing, hw]
  | some w =>
    simp only [closing, hw]
    exact List.forall_mem_append.2 ⟨w.beforeClosing.isPlain, List.all_eq_true.1 (by decide)⟩

theorem plainClause (i : Directive) :
    PlainClause (i.before.chars ++ (i.body ++ i.beforeEnd.chars)) := by
  have hbefore : ∀ c ∈ i.before.chars ++ (['@', 'i', 'm', 'p', 'o', 'r', 't'] ++
      (i.afterKeyword.chars ++ i.opening)), isPlain c = true :=
    List.forall_mem_append.2 ⟨i.before.isPlain,
      List.forall_mem_append.2 ⟨List.all_eq_true.1 (by decide),
        List.forall_mem_append.2 ⟨i.afterKeyword.isPlain, i.opening_isPlain⟩⟩⟩
  have hpath : ∀ c ∈ i.path.chars, c ≠ '\\' ∧ c ≠ '\n' ∧ c ≠ i.quote.char := by
    intro c hc
    have h := i.path.plain c hc
    simp only [List.mem_cons, List.not_mem_nil, or_false, not_or] at h
    exact ⟨h.2.2.1, h.2.2.2, by simpa using i.path.ne_quote i.quote c hc⟩
  have hafter : ∀ c ∈ i.closing ++ i.beforeEnd.chars, isPlain c = true :=
    List.forall_mem_append.2 ⟨i.closing_isPlain, i.beforeEnd.isPlain⟩
  have h := PlainClause.of_quoted hbefore i.quote.isQuote hpath hafter
  simpa [body] using h

theorem contents_render (i : Directive) :
    Text.contents i.render = [(some i.body, i.beforeEnd.chars, .semicolon)] :=
  i.plainClause.contents_eq i.body_trimmed.ascii i.before.blank i.beforeEnd.blank .semicolon

theorem endWithMark (i : Directive) : Piece.EndWithMark (Text.pieces i.render) :=
  i.plainClause.endWithMark .semicolon

end Directive

end Written

/-! ## Reading a statement -/

theorem Clause.content_eq {c : Clause} {body : Option Text} {gap : Text} {m : Mark}
    (h : c.content = (body, gap, m)) :
    (∃ start, c.body = body.map (Fragment.mk start)) ∧ c.gap = gap ∧ c.mark = m := by
  obtain ⟨hbody, hgap, hmark⟩ : c.body.map Fragment.chars = body ∧ c.gap = gap ∧ c.mark = m := by
    simpa [content] using h
  refine ⟨?_, hgap, hmark⟩
  subst hbody
  cases c.body with
  | none => exact ⟨0, rfl⟩
  | some f => exact ⟨f.start, rfl⟩

namespace Written

/-- The item is what the statement says. -/
inductive Statement.ReadAs : Statement → SheetItem → Prop where
  | directive {i : Directive} {j : Import} (content : j.content = i.content) :
      ReadAs (.directive i) (.directive j)
  | block {b : Block} {r : Rule} (content : r.content = b.content) (closed : r.closed = true) :
      ReadAs (.block b) (.rule r)

/-- **Reading the declarations of a block** adds them to its rule, and the closing brace
    completes it. -/
theorem read_entries {entries : List Entry} {gap : Text} {cs : List Clause}
    (h : cs.map Clause.content = entries.map Entry.clause ++ [(none, gap, .closeBrace)])
    (r : Rule) :
    (Level.block (some r)).behind cs = .outside ∧
      ∃ r', (Level.block (some r)).completed cs = [.rule r'] ∧ r'.closed = true ∧
        r'.content = (r.content.1, r.content.2 ++ entries.map Entry.content) := by
  induction entries generalizing cs r with
  | nil =>
    obtain ⟨c, rfl, hc⟩ := List.map_eq_singleton_iff.1 h
    obtain ⟨⟨start, hbody⟩, -, hmark⟩ := Clause.content_eq hc
    have hstep : (Level.block (some r)).step c =
        (.outside, [.rule ((r.declare none).endedAt c.stop true)]) := by
      simp [Level.step, hmark, hbody]
    refine ⟨?_, (r.declare none).endedAt c.stop true, ?_, rfl, ?_⟩
    · rw [Level.behind_cons hstep]
      rfl
    · rw [Level.completed_cons hstep]
      rfl
    · simp [Rule.declare, Rule.endedAt, Rule.content]
  | cons e entries ih =>
    obtain ⟨c, cs, rfl, hc, hcs⟩ := List.map_eq_cons_iff.1 h
    obtain ⟨⟨start, hbody⟩, -, hmark⟩ := Clause.content_eq hc
    obtain ⟨d, hd, hcontent⟩ := Option.map_eq_some_iff.1 (e.ofFragment?_content start)
    -- The rule that the rest is read into has one declaration more.
    have hstep : (Level.block (some r)).step c = (.block (some (r.declare c.body)), []) := by
      simp [Level.step, hmark]
    obtain ⟨hbehind, r', hr', hclosed, hr⟩ := ih hcs (r.declare c.body)
    refine ⟨?_, r', ?_, hclosed, ?_⟩
    · rw [Level.behind_cons hstep, hbehind]
    · rw [Level.completed_cons hstep, hr', List.nil_append]
    · rw [hr, hbody]
      simp [Rule.content, Rule.declare, hd, hcontent]

theorem Block.clause_head (b : Block) : b.clause.head? ≠ some '@' := by
  obtain ⟨c, cs, h⟩ := List.exists_cons_of_ne_nil b.first.chars_ne_nil
  have hne : ∀ c ∈ b.first.chars, c ≠ '@' := b.first.ne (by decide) (by decide)
  rw [h] at hne
  rw [Block.clause, h]
  simpa using hne c List.mem_cons_self

/-- The rule that a clause of selectors opens. -/
theorem Block.opened_content (b : Block) (start stop : Nat) :
    (Rule.opened ⟨start, b.clause⟩ stop).content =
      (b.first.content :: b.further.map (·.selector.content), []) := by
  have h := listOf_content ⟨[], by simp⟩ b.first b.further start
  rw [List.nil_append] at h
  rw [Rule.content, Rule.opened]
  simp only [Block.clause, h, List.map_nil]

/-- A rule is read as it is written. -/
theorem Block.read (b : Block) {cs : List Clause}
    (h : cs.map Clause.content = Text.contents b.render) :
    Level.outside.behind cs = .outside ∧
      ∃ x, Level.outside.completed cs = [x] ∧ (Statement.block b).ReadAs x := by
  obtain ⟨gap, hcontents⟩ := b.contents_render
  rw [hcontents] at h
  obtain ⟨c, cs, rfl, hc, hcs⟩ := List.map_eq_cons_iff.1 h
  obtain ⟨⟨start, hbody⟩, -, hmark⟩ := Clause.content_eq hc
  have hstep : Level.outside.step c =
      (.block (some (Rule.opened ⟨start, b.clause⟩ c.stop)), []) := by
    simp [Level.step, hmark, Level.ownerOf, hbody, b.clause_head]
  obtain ⟨hbehind, r, hr, hclosed, hcontent⟩ :=
    read_entries hcs (Rule.opened ⟨start, b.clause⟩ c.stop)
  refine ⟨?_, .rule r, ?_, .block ?_ hclosed⟩
  · rw [Level.behind_cons hstep, hbehind]
  · rw [Level.completed_cons hstep, hr, List.nil_append]
  · rw [hcontent, b.opened_content]
    rfl

/-- A directive is read as it is written. -/
theorem Directive.read (i : Directive) {cs : List Clause}
    (h : cs.map Clause.content = Text.contents i.render) :
    Level.outside.behind cs = .outside ∧
      ∃ x, Level.outside.completed cs = [x] ∧ (Statement.directive i).ReadAs x := by
  rw [i.contents_render] at h
  obtain ⟨c, rfl, hc⟩ := List.map_eq_singleton_iff.1 h
  obtain ⟨⟨start, hbody⟩, hgap, hmark⟩ := Clause.content_eq hc
  obtain ⟨j, hj, hcontent⟩ := Option.map_eq_some_iff.1 (i.ofFragment?_content start)
  have hstatement : c.statement = some ⟨start, i.body ++ i.beforeEnd.chars ++ [';']⟩ := by
    rw [Clause.statement, hbody, hgap, hmark]
    rfl
  have hstep : Level.outside.step c = (.outside, [.directive j]) := by
    simp only [Level.step, hmark, hstatement, Option.bind_some, hj]
    rfl
  refine ⟨?_, .directive j, ?_, .directive hcontent⟩
  · rw [Level.behind_cons hstep]
    rfl
  · rw [Level.completed_cons hstep]
    rfl

namespace Statement

/-- **A statement is one item,** and leaves no block open. -/
theorem read (s : Statement) {cs : List Clause}
    (h : cs.map Clause.content = Text.contents s.render) :
    Level.outside.behind cs = .outside ∧
      ∃ x, Level.outside.completed cs = [x] ∧ s.ReadAs x := by
  cases s with
  | directive i => exact i.read h
  | block b => exact b.read h

theorem endWithMark (s : Statement) : Piece.EndWithMark (Text.pieces s.render) := by
  cases s with
  | directive i => exact i.endWithMark
  | block b => exact b.endWithMark

end Statement

/-! ## Reading a sheet -/

/-- **Statements are read one after the other.** -/
theorem read_statements (size : Nat) (last : Option Fragment) (statements : List Statement)
    (after : Blanks) {cs : List Clause}
    (h : cs.map Clause.content =
      Text.contents (statements.flatMap Statement.render ++ after.chars)) :
    List.Forall₂ Statement.ReadAs statements (itemsFrom size last .outside cs) := by
  induction statements generalizing cs with
  | nil =>
    rw [List.flatMap_nil, List.nil_append, Text.contents_plain after.isPlain] at h
    rw [List.map_eq_nil_iff.1 h, itemsFrom]
    exact .nil
  | cons s statements ih =>
    rw [List.flatMap_cons, List.append_assoc, Text.contents_append s.endWithMark] at h
    obtain ⟨cs, ds, rfl, hcs, hds⟩ := List.map_eq_append_iff.1 h
    obtain ⟨hbehind, x, hx, hread⟩ := s.read hcs
    rw [itemsFrom_append, hbehind, hx]
    exact .cons hread (ih hds)

namespace Source

/-- What holds of statements and items one by one holds of those that are chosen from them. -/
theorem filterMap_readAs {α : Type} {get : Statement → Option α} {get' : SheetItem → Option α}
    (hget : ∀ {s x}, Statement.ReadAs s x → get' x = get s) {statements : List Statement}
    {items : List SheetItem} (h : List.Forall₂ Statement.ReadAs statements items) :
    items.filterMap get' = statements.filterMap get := by
  induction h with
  | nil => rfl
  | cons hx _ ih => rw [List.filterMap_cons, List.filterMap_cons, hget hx, ih]

theorem readAs_of_items {source : Source} {text : Text}
    (h : List.Forall₂ Statement.ReadAs source.statements text.items) :
    source.ReadAs (Sheet.ofText text) := by
  refine ⟨?_, ?_, ?_, ?_⟩
  · simp only [Sheet.ofText, List.map_filterMap]
    refine filterMap_readAs (fun hx => ?_) h
    cases hx with
    | directive hcontent => exact congrArg some hcontent
    | block => rfl
  · simp only [Sheet.ofText, List.map_filterMap]
    refine filterMap_readAs (fun hx => ?_) h
    cases hx with
    | directive => rfl
    | block hcontent => exact congrArg some hcontent
  · have hclosed : (Sheet.ofText text).rules.map Rule.closed =
        (source.statements.filterMap Statement.block?).map fun _ => true := by
      simp only [Sheet.ofText, List.map_filterMap]
      refine filterMap_readAs (fun hx => ?_) h
      cases hx with
      | directive => rfl
      | block _ hclosed => exact congrArg some hclosed
    intro r hr
    have hmem := List.mem_map_of_mem (f := Rule.closed) hr
    rw [hclosed] at hmem
    obtain ⟨-, -, h⟩ := List.mem_map.1 hmem
    exact h.symm
  · have hnone : source.statements.filterMap (fun _ => (none : Option Span)) = [] := by simp
    rw [← hnone]
    refine filterMap_readAs (fun hx => ?_) h
    cases hx <;> rfl

/-- **Every written sheet is read as it is written:** exactly its imports and its rules, in
    order, with all rules closed. -/
theorem parse_render (source : Source) :
    source.ReadAs (Sheet.parse (String.ofList source.render)) := by
  rw [Sheet.parse, String.toList_ofList]
  exact readAs_of_items (read_statements _ _ source.statements source.after rfl)

end Source

end Written

end StyleServer
