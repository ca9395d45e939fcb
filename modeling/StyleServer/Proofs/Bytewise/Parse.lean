/-
  Style sheets, read from tokens.

  The parser takes one token after the other.  It knows the statement that it reads by its span,
  and counts the braces of a block that it passes over.

  * `Parser`, `Parser.step`, `Parser.run`: the parser, one token, and all of them.
  * `ParseState.Reads`: the parser stands behind the text of a clause, where reading clause by
    clause stands at a level.
  * `ParseState.Reads.text`, `ParseState.Reads.mark`: the tokens of a clause keep this.
  * `run_eq`, `parseTokens_eq`: no slice and no difference fails, and what is found is what the
    clauses give.
-/
import StyleServer.Proofs.Bytewise.Scan
import StyleServer.Proofs.Bytewise.Statement
import StyleServer.Proofs.Sheet.Blocks
import StyleServer.Proofs.Sheet.Origin

namespace StyleServer

/-! ## The parser -/

/-- What has been read. -/
structure Found where
  rules : List Rule
  imports : List Import
  nestedBlocks : List Span

namespace Found

/-- Nothing. -/
def empty : Found := ⟨[], [], []⟩

/-- With one more rule. -/
def addRule (found : Found) (r : Rule) : Found := { found with rules := found.rules ++ [r] }

/-- With the blocks from `start` to `stop`, if there is one. -/
def addNested (found : Found) (start : Option Nat) (stop : Nat) : Found :=
  { found with nestedBlocks := found.nestedBlocks ++ (start.map fun s => ⟨s, stop⟩).toList }

/-- With all items. -/
def add (found : Found) (items : List SheetItem) : Found where
  rules := found.rules ++ items.filterMap SheetItem.rule?
  imports := found.imports ++ items.filterMap SheetItem.directive?
  nestedBlocks := found.nestedBlocks ++ items.filterMap SheetItem.nested?

@[simp] theorem add_nil (found : Found) : found.add [] = found := by simp [add]

theorem add_add (found : Found) (items items' : List SheetItem) :
    (found.add items).add items' = found.add (items ++ items') := by
  simp [add]

theorem add_rule (found : Found) (r : Rule) : found.add [.rule r] = found.addRule r := by
  simp [add, addRule, SheetItem.rule?, SheetItem.directive?, SheetItem.nested?]

theorem add_nested (found : Found) (start stop : Nat) :
    found.add [.nested ⟨start, stop⟩] = found.addNested (some start) stop := by
  simp [add, addNested, SheetItem.rule?, SheetItem.directive?, SheetItem.nested?]

theorem add_directive (found : Found) (i : Option Import) :
    found.add (i.map SheetItem.directive).toList =
      { found with imports := found.imports ++ i.toList } := by
  cases i with
  | none => simp
  | some i => simp [add, SheetItem.rule?, SheetItem.directive?, SheetItem.nested?]

@[simp] theorem addNested_none (found : Found) (stop : Nat) :
    found.addNested none stop = found := by
  simp [addNested]

end Found

/-- What a parser is doing. -/
inductive ParseState where
  /-- It reads a statement, of which it knows the span, in the block of a rule or outside of
      any. -/
  | reading (segment : Option Span) (rule : Option Rule)
  /-- It passes over a block, below `depth` open braces.  Inside a rule, it knows the rule and
      where the block begins.  Outside of rules, it knows where the statement begins that it
      passes over, and where a block begins inside of the one that it passes over. -/
  | skipping (depth : Nat) (statement inner : Option Nat) (around : Option (Rule × Nat))

/-- A parser. -/
structure Parser where
  found : Found
  state : ParseState

/-- A segment through one more token. -/
def extendSegment (segment : Option Span) (span : Span) : Span :=
  match segment with
  | some s => s.cover span
  | none => span

/-- A rule with the declaration of a segment. -/
def declareIn (text : Text) (r : Rule) (segment : Option Span) : Checked Rule :=
  match segment with
  | none => .ok r
  | some span => do
    let d ← declarationIn text span
    return { r with declarations := r.declarations ++ d.toList }

/-- The rule that a clause opens before a brace. -/
def openRule (text : Text) (clause brace : Span) : Checked Rule := do
  let selectors ← selectorsIn text clause
  let chars ← Checked.slice text clause
  return ⟨String.ofList chars, selectors, [], clause.cover brace, true⟩

namespace Parser

/-- Before a text. -/
def start : Parser := ⟨.empty, .reading none none⟩

/-- A token outside of blocks. -/
def outside (text : Text) (found : Found) (segment : Option Span) (t : Token) : Checked Parser :=
  match t.kind with
  | .text => .ok ⟨found, .reading (extendSegment segment t.span) none⟩
  | .mark .semicolon =>
    match segment with
    | none => .ok ⟨found, .reading none none⟩
    | some span => do
      let i ← importIn text (span.cover t.span)
      return ⟨{ found with imports := found.imports ++ i.toList }, .reading none none⟩
  | .mark .openBrace =>
    match segment with
    | none => .ok ⟨found, .skipping 1 none none none⟩
    | some clause => do
      let chars ← Checked.slice text clause
      if chars.head? = some '@' then return ⟨found, .skipping 1 none none none⟩
      else
        let r ← openRule text clause t.span
        return ⟨found, .reading none (some r)⟩
  | .mark .closeBrace => .ok ⟨found, .reading none none⟩

/-- A token in the block of a rule. -/
def inside (text : Text) (found : Found) (segment : Option Span) (r : Rule) (t : Token) :
    Checked Parser :=
  match t.kind with
  | .text => .ok ⟨found, .reading (extendSegment segment t.span) (some r)⟩
  | .mark .semicolon => do
    let r ← declareIn text r segment
    return ⟨found, .reading none (some r)⟩
  | .mark .openBrace =>
    .ok ⟨found, .skipping 1 none none (some (r, (segment.map Span.start).getD t.span.start))⟩
  | .mark .closeBrace => do
    let r ← declareIn text r segment
    return ⟨found.addRule (r.endedAt t.span.stop true), .reading none none⟩

/-- A token in a block that is passed over. -/
def skip (found : Found) (depth : Nat) (statement inner : Option Nat)
    (around : Option (Rule × Nat)) (t : Token) : Checked Parser :=
  match t.kind with
  | .text =>
    .ok ⟨found, .skipping depth (if depth = 1 then statement.or (some t.span.start) else statement)
      inner around⟩
  | .mark .semicolon =>
    .ok ⟨found, .skipping depth (if depth = 1 then none else statement) inner around⟩
  | .mark .openBrace =>
    if depth = 1 ∧ around.isNone then
      .ok ⟨found, .skipping (depth + 1) none (some (statement.getD t.span.start)) around⟩
    else .ok ⟨found, .skipping (depth + 1) statement inner around⟩
  | .mark .closeBrace => do
    let depth ← Checked.minus depth 1
    if depth = 1 then
      return ⟨found.addNested inner t.span.stop, .skipping depth none none around⟩
    else if depth = 0 then
      match around with
      | none => return ⟨found, .reading none none⟩
      | some (r, start) => return ⟨found.addNested start t.span.stop, .reading none (some r)⟩
    else return ⟨found, .skipping depth statement inner around⟩

/-- One token. -/
def step (text : Text) (p : Parser) (t : Token) : Checked Parser :=
  match p.state with
  | .reading segment none => outside text p.found segment t
  | .reading segment (some r) => inside text p.found segment r t
  | .skipping depth statement inner around => skip p.found depth statement inner around t

/-- All tokens. -/
def run (text : Text) (p : Parser) : List Token → Checked Parser
  | [] => .ok p
  | t :: ts => do
    let p ← step text p t
    run text p ts

/-- What has been read at the end of the text. -/
def finish (text : Text) (p : Parser) : Checked Found :=
  match p.state with
  | .reading _ none => .ok p.found
  | .reading segment (some r) => do
    let r ← declareIn text r segment
    return p.found.addRule (r.endedAt text.byteLength false)
  | .skipping _ _ inner none => .ok (p.found.addNested inner text.byteLength)
  | .skipping _ _ inner (some (r, start)) =>
    .ok (((p.found.addNested inner text.byteLength).addNested start text.byteLength).addRule
      (r.endedAt text.byteLength false))

end Parser

/-- Reads a text, token by token. -/
def parseTokens (text : Text) : Checked Sheet := do
  let ts ← tokenize text
  let p ← Parser.start.run text ts
  let found ← p.finish text
  return ⟨text, found.rules, found.imports, found.nestedBlocks⟩

/-! ## Statements in the text -/

theorem declareIn_eq {text : Text} {segment : Option Fragment} (h : ∀ f ∈ segment, f.In text)
    (r : Rule) : declareIn text r (segment.map Fragment.span) = .ok (r.declare segment) := by
  cases segment with
  | none =>
    show Except.ok r = Except.ok { r with declarations := r.declarations ++ [] }
    rw [List.append_nil]
  | some f =>
    show (declarationIn text f.span >>= _) = _
    rw [declarationIn_eq (h f rfl)]
    rfl

theorem openRule_eq {text : Text} {f : Fragment} (h : f.In text) {brace : Span}
    (hle : f.stop ≤ brace.start) (hbrace : brace.start ≤ brace.stop) :
    openRule text f.span brace = .ok (Rule.opened f brace.stop) := by
  have hspan : f.span.cover brace = ⟨f.start, brace.stop⟩ := by
    have : f.start ≤ f.stop := Nat.le_add_right _ _
    simp only [Span.cover, Fragment.span, Span.mk.injEq]
    omega
  rw [openRule, selectorsIn_eq h, Checked.ok_bind, Checked.slice_of_in h, Checked.ok_bind, hspan]
  rfl

/-! ## The text of a clause -/

namespace Parser

theorem run_append (text : Text) (p : Parser) (ts us : List Token) :
    p.run text (ts ++ us) = (p.run text ts >>= fun q => q.run text us) := by
  induction ts generalizing p with
  | nil => rfl
  | cons t ts ih =>
    show (step text p t >>= fun q => q.run text (ts ++ us)) = _
    rw [run, bind_assoc]
    exact congrArg _ (funext ih)

/-- Text makes the statement longer that is read. -/
theorem run_reading (text : Text) (found : Found) (segment : Option Span) (r : Option Rule)
    {ts : List Token} (h : ∀ t ∈ ts, t.kind = .text) :
    (⟨found, .reading segment r⟩ : Parser).run text ts =
      .ok ⟨found, .reading (ts.foldl (fun s t => some (extendSegment s t.span)) segment) r⟩ := by
  induction ts generalizing segment with
  | nil => rfl
  | cons t ts ih =>
    obtain ⟨ht, hts⟩ := List.forall_mem_cons.1 h
    obtain ⟨kind, span⟩ := t
    obtain rfl : kind = .text := ht
    have hstep : step text ⟨found, .reading segment r⟩ ⟨.text, span⟩ =
        .ok ⟨found, .reading (some (extendSegment segment span)) r⟩ := by
      cases r with
      | none => rfl
      | some r => rfl
    rw [run, hstep, Checked.ok_bind, ih _ hts]
    rfl

/-- The first text of a statement that is passed over begins it. -/
theorem run_skipping (text : Text) (found : Found) (depth : Nat) (statement inner : Option Nat)
    (around : Option (Rule × Nat)) {ts : List Token} (h : ∀ t ∈ ts, t.kind = .text) :
    (⟨found, .skipping depth statement inner around⟩ : Parser).run text ts =
      .ok ⟨found, .skipping depth (if depth = 1 then statement.or (ts.head?.map (·.span.start))
        else statement) inner around⟩ := by
  induction ts generalizing statement with
  | nil =>
    rw [List.head?_nil, Option.map_none, Option.or_none, ite_self]
    rfl
  | cons t ts ih =>
    obtain ⟨ht, hts⟩ := List.forall_mem_cons.1 h
    obtain ⟨kind, span⟩ := t
    obtain rfl : kind = .text := ht
    have hstep : step text ⟨found, .skipping depth statement inner around⟩ ⟨.text, span⟩ =
        .ok ⟨found, .skipping depth
          (if depth = 1 then statement.or (some span.start) else statement) inner around⟩ := rfl
    rw [run, hstep, Checked.ok_bind, ih _ hts]
    by_cases hd : depth = 1
    · simp only [hd, if_true]
      cases statement <;> rfl
    · simp only [hd, if_false]

end Parser

theorem kind_of_unmarked {offset : Nat} {group : List Piece} (h : Piece.Unmarked group) :
    ∀ t ∈ tokensFrom offset group, t.kind = .text := by
  intro t ht
  have hmark := tokensFrom_unmarked offset h t ht
  simpa [Token.isMark] using hmark

/-- The first token of a group begins its body. -/
theorem head?_tokensFrom {group : List Piece} (h : Piece.Unmarked group) (offset : Nat) :
    (tokensFrom offset group).head?.map (·.span.start) =
      (Clause.bodyOf? offset group).map Fragment.start := by
  by_cases ht : ∃ p ∈ group, p.isText = true
  · obtain ⟨lead, body, gap, hb⟩ := Clause.exists_body ht
    obtain ⟨p, rest, ts, -, htokens⟩ := tokensFrom_body hb h offset
    rw [htokens, hb.bodyOf?_eq]
    rfl
  · have hblank : ∀ p ∈ group, p.isText = false := by
      intro p hp
      exact Bool.eq_false_iff.2 fun htext => ht ⟨p, hp, htext⟩
    rw [tokensFrom_blank offset h hblank, Clause.bodyOf?_of_blank offset hblank]
    rfl

theorem tokensFrom_text {p : Piece} (h : p.isText = true) (offset : Nat) (ps : List Piece) :
    tokensFrom offset (p :: ps) =
      ⟨.text, ⟨offset, offset + p.size⟩⟩ :: tokensFrom (offset + p.size) ps := by
  cases p with
  | quoted | word => rfl
  | blank | blockComment | lineComment | mark => simp [Piece.isText] at h

/-- Tokens make a segment longer, up to the last of them. -/
theorem foldl_extendSegment {ps : List Piece} (h : Piece.Unmarked ps) {start stop offset : Nat}
    (hstart : start ≤ offset) (hstop : stop ≤ offset) :
    ∃ stop', stop' ≤ offset + Text.byteLength (Piece.allChars ps) ∧
      (tokensFrom offset ps).foldl (fun s t => some (extendSegment s t.span)) (some ⟨start, stop⟩) =
        some ⟨start, stop'⟩ := by
  induction ps generalizing stop offset with
  | nil => exact ⟨stop, hstop, rfl⟩
  | cons p ps ih =>
    have hu : Piece.Unmarked ps := fun q hq => h q (List.mem_cons_of_mem _ hq)
    have hend : offset + Text.byteLength (Piece.allChars (p :: ps)) =
        offset + p.size + Text.byteLength (Piece.allChars ps) := by
      rw [Piece.allChars_cons, Text.byteLength_append, ← Nat.add_assoc]
      rfl
    rw [hend]
    cases ht : p.isText with
    | true =>
      have hcover : (⟨start, stop⟩ : Span).cover ⟨offset, offset + p.size⟩ =
          ⟨start, offset + p.size⟩ := by
        simp only [Span.cover, Span.mk.injEq]
        omega
      rw [tokensFrom_text ht, List.foldl_cons, extendSegment, hcover]
      exact ih hu (by omega) (Nat.le_refl _)
    | false =>
      have htokens : tokensFrom offset (p :: ps) = tokensFrom (offset + p.size) ps := by
        have hblank : tokensFrom offset [p] = [] := by
          refine tokensFrom_blank offset ?_ (by simpa using ht)
          intro q hq
          rw [List.mem_singleton.1 hq]
          exact h p List.mem_cons_self
        have happend := tokensFrom_append offset [p] ps
        rw [hblank, List.nil_append, List.singleton_append, Piece.allChars_cons,
          Piece.allChars_nil, List.append_nil] at happend
        exact happend
      rw [htokens]
      exact ih hu (by omega) (by omega)

/-- **The segment of a group is the span of its body.** -/
theorem segment_eq {group : List Piece} (h : Piece.Unmarked group) (offset : Nat) :
    (tokensFrom offset group).foldl (fun s t => some (extendSegment s t.span)) none =
      (Clause.bodyOf? offset group).map Fragment.span := by
  by_cases ht : ∃ p ∈ group, p.isText = true
  · obtain ⟨lead, body, gap, hb⟩ := Clause.exists_body ht
    have hmem : ∀ q, q ∈ lead ∨ q ∈ body ∨ q ∈ gap → q.mark? = none := by
      intro q hq
      refine h q ?_
      rw [hb.eq]
      simpa [or_assoc] using hq
    have htokens : tokensFrom offset group =
        tokensFrom (offset + Text.byteLength (Piece.allChars lead)) body := by
      rw [hb.eq, tokensFrom_append, tokensFrom_append,
        tokensFrom_blank _ (fun q hq => hmem q (Or.inl hq)) hb.lead_blank,
        tokensFrom_blank _ (fun q hq => hmem q (Or.inr (Or.inr hq))) hb.gap_blank,
        List.nil_append, List.append_nil]
    rw [htokens, hb.bodyOf?_eq, Option.map_some]
    generalize offset + Text.byteLength (Piece.allChars lead) = start
    -- The first text begins the segment, and the last one ends it.
    obtain ⟨init, q, hlast, hq⟩ := hb.last
    obtain ⟨p, rest, hfirst, hp⟩ := hb.first
    rw [hlast, tokensFrom_append, List.foldl_append, tokensFrom_text hq]
    cases init with
    | nil =>
      simp [tokensFrom, Fragment.span, Fragment.stop, extendSegment, Piece.size]
    | cons p' init =>
      rw [hlast] at hfirst
      obtain ⟨rfl, -⟩ := List.cons.inj hfirst
      have hu : Piece.Unmarked init := fun r hr => hmem r (Or.inr (Or.inl (by
        rw [hlast]
        exact List.mem_append_left _ (List.mem_cons_of_mem _ hr))))
      obtain ⟨stop, hstop, hfold⟩ := foldl_extendSegment hu (Nat.le_add_right start p'.size)
        (Nat.le_refl (start + p'.size))
      have hinit : (tokensFrom start (p' :: init)).foldl
          (fun s t => some (extendSegment s t.span)) none = some ⟨start, stop⟩ := by
        rw [tokensFrom_text hp, List.foldl_cons]
        exact hfold
      have hspan : (⟨start, stop⟩ : Span).cover
          ⟨start + Text.byteLength (Piece.allChars (p' :: init)),
            start + Text.byteLength (Piece.allChars (p' :: init)) + q.size⟩ =
          Fragment.span ⟨start, Piece.allChars (p' :: init ++ [q])⟩ := by
        simp only [Span.cover, Fragment.span, Fragment.stop, Piece.allChars_append,
          Text.byteLength_append, Piece.allChars_cons, Piece.allChars_nil, List.append_nil,
          Span.mk.injEq, Piece.size] at hstop ⊢
        omega
      rw [hinit, List.foldl_cons, extendSegment, hspan]
      rfl
  · have hblank : ∀ p ∈ group, p.isText = false := by
      intro p hp
      exact Bool.eq_false_iff.2 fun htext => ht ⟨p, hp, htext⟩
    rw [tokensFrom_blank offset h hblank, Clause.bodyOf?_of_blank offset hblank]
    rfl

/-! ## Reading along the clauses -/

namespace ParseState

/-- Behind the text of a clause, the parser stands at a level. -/
inductive Reads (body : Option Fragment) : ParseState → Level → Prop where
  | outside : Reads body (.reading (body.map Fragment.span) none) .outside
  | rule (r : Rule) : Reads body (.reading (body.map Fragment.span) (some r)) (.block (some r))
  | skipped : Reads body (.skipping 1 (body.map Fragment.start) none none) (.block none)
  | inner (start : Nat) {depth : Nat} (h : 1 ≤ depth) :
      Reads body (.skipping (depth + 1) none (some start) none) (.nested none start depth)
  | nested (r : Rule) (start : Nat) {depth : Nat} (h : 1 ≤ depth) (statement : Option Nat) :
      Reads body (.skipping depth statement none (some (r, start))) (.nested (some r) start depth)

/-- The text of a clause is read without leaving the level. -/
theorem Reads.text {state : ParseState} {level : Level} (h : state.Reads none level) (text : Text)
    (found : Found) {group : List Piece} (hu : Piece.Unmarked group) (offset : Nat) :
    ∃ state', (⟨found, state⟩ : Parser).run text (tokensFrom offset group) = .ok ⟨found, state'⟩ ∧
      state'.Reads (Clause.bodyOf? offset group) level := by
  have hkind : ∀ t ∈ tokensFrom offset group, t.kind = .text := kind_of_unmarked hu
  cases h with
  | outside =>
    refine ⟨_, Parser.run_reading text found _ none hkind, ?_⟩
    rw [Option.map_none, segment_eq hu]
    exact .outside
  | rule r =>
    refine ⟨_, Parser.run_reading text found _ (some r) hkind, ?_⟩
    rw [Option.map_none, segment_eq hu]
    exact .rule r
  | skipped =>
    refine ⟨_, Parser.run_skipping text found 1 _ none none hkind, ?_⟩
    rw [if_pos rfl, Option.map_none, Option.none_or, head?_tokensFrom hu]
    exact .skipped
  | inner start hdepth =>
    refine ⟨_, Parser.run_skipping text found _ none (some start) none hkind, ?_⟩
    rw [if_neg (by omega)]
    exact .inner start hdepth
  | nested r start hdepth statement =>
    exact ⟨_, Parser.run_skipping text found _ statement none _ hkind, .nested r start hdepth _⟩

section
variable {c : Clause} {text : Text} {lo : Nat} (hstands : c.StandsBehind lo)
  (hbody : ∀ f ∈ c.body, f.In text) (hstatement : ∀ f ∈ c.statement, f.In text) (found : Found)

include hstands in
/-- From its body through its mark, a clause is its statement. -/
theorem cover_token {f : Fragment} (hf : c.body = some f) :
    ∃ statement, c.statement = some statement ∧ f.span.cover c.token.span = statement.span := by
  have hstatement : c.statement = some ⟨f.start, f.chars ++ c.gap ++ [c.mark.char]⟩ := by
    rw [Clause.statement, hf]
    rfl
  refine ⟨_, hstatement, ?_⟩
  rw [hstands.statement_span _ hstatement]
  have hstart : c.start = f.start := by rw [Clause.start, hf]; rfl
  have hstop := (hstands.body f hf).2
  have hle : f.start ≤ f.stop := Nat.le_add_right _ _
  simp only [Span.cover, Fragment.span, Clause.token, Clause.stop, hstart, Span.mk.injEq]
  omega

include hstands hstatement in
/-- A semicolon outside of blocks ends an import, or what is none. -/
theorem outside_semicolon (hmark : c.mark = .semicolon) :
    Parser.outside text found (c.body.map Fragment.span) c.token =
      .ok ⟨found.add (Level.step .outside c).2, .reading none none⟩ := by
  have hitems : (Level.step .outside c).2 =
      ((c.statement.bind Import.ofFragment?).map SheetItem.directive).toList := by
    rw [Level.step, hmark]
  have hkind : c.token.kind = .mark .semicolon := congrArg _ hmark
  rw [hitems, Found.add_directive, Parser.outside.eq_def, hkind]
  cases hb : c.body with
  | none => simp [Clause.statement, hb]
  | some f =>
    obtain ⟨statement, hs, hspan⟩ := cover_token hstands hb
    simp only [Option.map_some, hspan, importIn_eq (hstatement statement hs), hs]
    rfl

include hbody hstands in
/-- A brace outside of blocks opens a rule, or a block that is passed over. -/
theorem outside_openBrace (hmark : c.mark = .openBrace) :
    ∃ state', Parser.outside text found (c.body.map Fragment.span) c.token = .ok ⟨found, state'⟩ ∧
      state'.Reads none (.block (Level.ownerOf c)) := by
  have hkind : c.token.kind = .mark .openBrace := congrArg _ hmark
  rw [Parser.outside.eq_def, hkind, Level.ownerOf]
  cases hb : c.body with
  | none => exact ⟨_, rfl, .skipped⟩
  | some f =>
    have hopen : openRule text f.span c.token.span = .ok (Rule.opened f c.stop) :=
      openRule_eq (hbody f hb) (hstands.body f hb).2 (Nat.le_succ _)
    simp only [Option.map_some, Checked.slice_of_in (hbody f hb), Checked.ok_bind]
    split
    · exact ⟨_, rfl, .skipped⟩
    · rw [hopen]
      exact ⟨_, rfl, .rule _⟩

/-- A closing brace inside of a block that is passed over ends a block in it, or one further
    inside. -/
theorem inner_closeBrace {start depth : Nat} (hdepth : 1 ≤ depth) (hmark : c.mark = .closeBrace) :
    ∃ state', Parser.skip found (depth + 1) none (some start) none c.token =
        .ok ⟨found.add ((Level.nested none start depth).step c).2, state'⟩ ∧
      state'.Reads none ((Level.nested none start depth).step c).1 := by
  have hkind : c.token.kind = .mark .closeBrace := congrArg _ hmark
  rw [Parser.skip.eq_def, hkind, Level.step, hmark]
  dsimp only
  rw [Checked.minus_add, Checked.ok_bind]
  by_cases hone : depth = 1
  · subst hone
    refine ⟨.skipping 1 none none none, ?_, .skipped⟩
    rw [if_pos rfl, if_pos (Nat.le_refl 1), Found.add_nested]
    rfl
  · refine ⟨.skipping depth none (some start) none, ?_, ?_⟩
    · rw [if_neg hone, if_neg (by omega), if_neg (by omega), Found.add_nil]
      rfl
    · obtain ⟨k, rfl⟩ : ∃ k, depth = k + 1 := ⟨depth - 1, by omega⟩
      rw [if_neg (by omega)]
      exact .inner start (by omega)

/-- A closing brace inside of a nested block ends it, or one further inside. -/
theorem nested_closeBrace {start depth : Nat} (hdepth : 1 ≤ depth) (r : Rule)
    (statement : Option Nat) (hmark : c.mark = .closeBrace) :
    ∃ state', Parser.skip found depth statement none (some (r, start)) c.token =
        .ok ⟨found.add ((Level.nested (some r) start depth).step c).2, state'⟩ ∧
      state'.Reads none ((Level.nested (some r) start depth).step c).1 := by
  have hkind : c.token.kind = .mark .closeBrace := congrArg _ hmark
  rw [Parser.skip.eq_def, hkind, Level.step, hmark]
  dsimp only
  rw [Checked.minus_of_le hdepth, Checked.ok_bind]
  by_cases hone : depth = 1
  · subst hone
    refine ⟨.reading none (some r), ?_, .rule r⟩
    rw [if_pos (Nat.le_refl 1), Found.add_nested]
    rfl
  · rw [if_neg (by omega : ¬ depth ≤ 1), if_neg (by omega : depth - 1 ≠ 0), Found.add_nil]
    split
    · refine ⟨_, ?_, .nested r start (by omega) none⟩
      rw [Found.addNested_none]
      rfl
    · exact ⟨_, rfl, .nested r start (by omega) statement⟩

end

/-- **The mark of a clause leads to the next level,** and completes what the clause completes. -/
theorem Reads.mark {state : ParseState} {level : Level} {c : Clause} (h : state.Reads c.body level)
    {text : Text} {lo : Nat} (hstands : c.StandsBehind lo) (hbody : ∀ f ∈ c.body, f.In text)
    (hstatement : ∀ f ∈ c.statement, f.In text) (found : Found) :
    ∃ state', Parser.step text ⟨found, state⟩ c.token =
        .ok ⟨found.add (level.step c).2, state'⟩ ∧ state'.Reads none (level.step c).1 := by
  obtain ⟨body, gap, mark, offset⟩ := c
  cases h with
  | outside =>
    cases mark with
    | semicolon => exact ⟨_, outside_semicolon hstands hstatement found rfl, .outside⟩
    | openBrace =>
      obtain ⟨state', hstep, hreads⟩ := outside_openBrace hstands hbody found rfl
      refine ⟨state', ?_, hreads⟩
      show _ = Except.ok (⟨found.add [], state'⟩ : Parser)
      rw [Found.add_nil]
      exact hstep
    | closeBrace =>
      refine ⟨.reading none none, ?_, .outside⟩
      show _ = Except.ok (⟨found.add [], _⟩ : Parser)
      rw [Found.add_nil]
      rfl
  | rule r =>
    have hdeclare := declareIn_eq hbody r
    cases mark with
    | semicolon =>
      refine ⟨.reading none (some (r.declare body)), ?_, .rule _⟩
      show (declareIn text r (body.map Fragment.span) >>= _) =
        Except.ok (⟨found.add [], _⟩ : Parser)
      rw [hdeclare, Found.add_nil]
      rfl
    | openBrace =>
      refine ⟨.skipping 1 none none (some (r, _)), ?_, .nested r _ (Nat.le_refl 1) none⟩
      show Except.ok _ = Except.ok (⟨found.add [], _⟩ : Parser)
      rw [Found.add_nil]
      cases body <;> rfl
    | closeBrace =>
      refine ⟨.reading none none, ?_, .outside⟩
      show (declareIn text r (body.map Fragment.span) >>= _) =
        Except.ok (⟨found.add [.rule _], _⟩ : Parser)
      rw [hdeclare, Found.add_rule]
      rfl
  | skipped =>
    cases mark with
    | semicolon =>
      refine ⟨.skipping 1 none none none, ?_, .skipped⟩
      show Except.ok _ = Except.ok (⟨found.add [], _⟩ : Parser)
      rw [Found.add_nil]
      rfl
    | openBrace =>
      refine ⟨.skipping 2 none (some _) none, ?_, .inner _ (Nat.le_refl 1)⟩
      show Except.ok _ = Except.ok (⟨found.add [], _⟩ : Parser)
      rw [Found.add_nil]
      rfl
    | closeBrace =>
      refine ⟨.reading none none, ?_, .outside⟩
      show _ = Except.ok (⟨found.add [], _⟩ : Parser)
      rw [Found.add_nil]
      rfl
  | @inner start depth hdepth =>
    cases mark with
    | semicolon =>
      refine ⟨.skipping (depth + 1) none (some start) none, ?_, .inner start hdepth⟩
      show Except.ok (⟨found, .skipping (depth + 1) (if depth + 1 = 1 then none else none) _ _⟩ :
        Parser) = Except.ok ⟨found.add [], _⟩
      rw [Found.add_nil, ite_self]
    | openBrace =>
      refine ⟨.skipping (depth + 2) none (some start) none, ?_, .inner start (by omega)⟩
      show (if depth + 1 = 1 ∧ _ then _ else _) = Except.ok (⟨found.add [], _⟩ : Parser)
      rw [Found.add_nil, if_neg (by omega)]
    | closeBrace =>
      obtain ⟨state', hskip, hreads⟩ := inner_closeBrace found hdepth
        (show Clause.mark ⟨body, gap, .closeBrace, offset⟩ = .closeBrace from rfl)
      exact ⟨state', hskip, hreads⟩
  | @nested r start depth hdepth statement =>
    cases mark with
    | semicolon =>
      refine ⟨.skipping depth (if depth = 1 then none else statement) none (some (r, start)), ?_,
        .nested r start hdepth _⟩
      show _ = Except.ok (⟨found.add [], _⟩ : Parser)
      rw [Found.add_nil]
      rfl
    | openBrace =>
      refine ⟨.skipping (depth + 1) statement none (some (r, start)), ?_,
        .nested r start (by omega) _⟩
      show (if depth = 1 ∧ false = true then _ else _) = Except.ok (⟨found.add [], _⟩ : Parser)
      rw [Found.add_nil, if_neg (by simp)]
    | closeBrace =>
      obtain ⟨state', hskip, hreads⟩ := nested_closeBrace found hdepth r statement
        (show Clause.mark ⟨body, gap, .closeBrace, offset⟩ = .closeBrace from rfl)
      exact ⟨state', hskip, hreads⟩

end ParseState

/-- At the end of the text, what is left open is completed. -/
theorem ParseState.Reads.finish {state : ParseState} {level : Level} {last : Option Fragment}
    (h : state.Reads last level) {text : Text} (hlast : ∀ f ∈ last, f.In text) (found : Found) :
    (⟨found, state⟩ : Parser).finish text =
      .ok (found.add (level.finish text.byteLength last)) := by
  cases h with
  | outside =>
    show Except.ok found = Except.ok (found.add [])
    rw [Found.add_nil]
  | rule r =>
    show (declareIn text r (last.map Fragment.span) >>= _) = Except.ok (found.add [.rule _])
    rw [declareIn_eq hlast, Found.add_rule]
    rfl
  | skipped =>
    show Except.ok (found.addNested none _) = Except.ok (found.add [])
    rw [Found.addNested_none, Found.add_nil]
  | inner start =>
    show Except.ok (found.addNested (some start) _) = Except.ok (found.add [.nested _])
    rw [Found.add_nested]
  | nested r start =>
    show Except.ok (((found.addNested none _).addNested (some start) _).addRule _) =
      Except.ok (found.add ([.nested ⟨start, _⟩] ++ [.rule _]))
    rw [Found.addNested_none, ← Found.add_add, Found.add_nested, Found.add_rule]

/-- **A run along the tokens** completes what the clauses complete. -/
theorem run_eq {text : Text} {ps : List Piece} {offset : Nat} {state : ParseState} {level : Level}
    (h : state.Reads none level)
    (hbody : ∀ c ∈ (Clause.ofPieces offset ps).1, ∀ f ∈ c.body, f.In text)
    (hstatement : ∀ c ∈ (Clause.ofPieces offset ps).1, ∀ f ∈ c.statement, f.In text)
    (hlast : ∀ f ∈ (Clause.ofPieces offset ps).2, f.In text) (found : Found) :
    ((⟨found, state⟩ : Parser).run text (tokensFrom offset ps) >>= fun p => p.finish text) =
      .ok (found.add (itemsFrom text.byteLength (Clause.ofPieces offset ps).2 level
        (Clause.ofPieces offset ps).1)) := by
  induction ps using Piece.marks_induction generalizing offset state level found with
  | last ps hu =>
    rw [Clause.ofPieces_unmarked offset hu] at hlast ⊢
    obtain ⟨state', hrun, hreads⟩ := h.text text found hu offset
    rw [hrun, Checked.ok_bind, hreads.finish hlast]
    rfl
  | mark group m ps hu ih =>
    rw [Clause.ofPieces_mark offset hu] at hbody hstatement hlast ⊢
    obtain ⟨hfirst, hbody⟩ := List.forall_mem_cons.1 hbody
    obtain ⟨hs, hstatement⟩ := List.forall_mem_cons.1 hstatement
    obtain ⟨state₁, hrun, hreads⟩ := h.text text found hu offset
    obtain ⟨state₂, hstep, hnext⟩ := ParseState.Reads.mark hreads
      (Clause.ofGroup_standsBehind offset group m) hfirst hs found
    rw [tokensFrom_mark, Parser.run_append, hrun, Checked.ok_bind, Parser.run, hstep,
      Checked.ok_bind, ih hnext hbody hstatement hlast, Found.add_add]
    rfl

/-- **A sheet is read from its tokens,** without a slice or a difference that fails. -/
theorem parseTokens_eq (text : Text) : parseTokens text = .ok (Sheet.ofText text) := by
  have hrun : (Parser.start.run text (tokens text) >>= fun p => p.finish text) =
      .ok (Found.empty.add text.items) :=
    run_eq .outside (fun c hc f hf => (Clause.body_hasBody hc hf).in_text)
      (fun c hc f hf => Clause.statement_in hc hf)
      (fun f hf => (Clause.last_hasBody hf).in_text) .empty
  rw [parseTokens, tokenize_eq, Checked.ok_bind, ← bind_assoc, hrun]
  rfl

end StyleServer
