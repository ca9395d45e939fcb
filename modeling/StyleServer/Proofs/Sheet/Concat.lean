/-
  Texts one behind the other.

  Behind a text that ends a statement outside of all blocks, another one is read as if
  it stood alone.

  * `Level.step_shift`, `itemsFrom_shift`: reading moves with the clauses that it reads.
  * `Text.EndsStatement`: the texts behind which reading is back where it began.
  * `Text.items_append`: what is read of two such texts.
-/
import StyleServer.Proofs.Sheet.Level
import StyleServer.Proofs.Sheet.Statement

namespace StyleServer

/-! ## Moving -/

namespace Rule

/-- The rule `n` bytes further back. -/
def shift (n : Nat) (r : Rule) : Rule :=
  { r with
    selectors := r.selectors.map (Selector.shift n)
    declarations := r.declarations.map (Declaration.shift n)
    span := r.span.shift n }

theorem opened_shift (n : Nat) (clause : Fragment) (stop : Nat) :
    opened (clause.shift n) (stop + n) = (opened clause stop).shift n := by
  simp only [opened, shift, Fragment.shift_text, Selector.listOf_shift, Fragment.shift_start,
    List.map_nil, Span.shift]

theorem shift_declare (n : Nat) (r : Rule) (statement : Option Fragment) :
    (r.shift n).declare (statement.map (Fragment.shift n)) = (r.declare statement).shift n := by
  cases statement with
  | none => simp [declare, shift]
  | some f =>
    simp only [declare, shift, Option.map_some, Option.bind_some, Declaration.ofFragment?_shift,
      List.map_append]
    cases Declaration.ofFragment? f <;> rfl

theorem shift_endedAt (n : Nat) (r : Rule) (stop : Nat) (closed : Bool) :
    (r.shift n).endedAt (stop + n) closed = (r.endedAt stop closed).shift n := rfl

end Rule

/-- The item `n` bytes further back. -/
def SheetItem.shift (n : Nat) : SheetItem → SheetItem
  | rule r => rule (r.shift n)
  | directive i => directive (i.shift n)
  | nested span => nested (span.shift n)

namespace Level

/-- The level in a text that stands `n` bytes further back. -/
def shift (n : Nat) : Level → Level
  | outside => outside
  | block owner => block (owner.map (Rule.shift n))
  | nested owner start depth => nested (owner.map (Rule.shift n)) (start + n) depth

theorem ownerOf_shift (n : Nat) (c : Clause) :
    ownerOf (c.shift n) = (ownerOf c).map (Rule.shift n) := by
  unfold ownerOf
  rw [Clause.shift_stop]
  cases hb : c.body with
  | none => simp [Clause.shift, hb]
  | some body =>
    simp only [Clause.shift, hb, Option.map_some, Fragment.shift_chars, Rule.opened_shift]
    split <;> rfl

/-- Reading a clause further back does the same there. -/
theorem step_shift (n : Nat) (level : Level) (c : Clause) :
    (level.shift n).step (c.shift n) =
      ((level.step c).1.shift n, (level.step c).2.map (SheetItem.shift n)) := by
  have hmark : (c.shift n).mark = c.mark := rfl
  have hbody : (c.shift n).body = c.body.map (Fragment.shift n) := rfl
  cases level with
  | outside =>
    cases hm : c.mark with
    | semicolon =>
      simp only [shift, step, hmark, hm, Clause.shift_statement]
      cases c.statement with
      | none => rfl
      | some f =>
        simp only [Option.map_some, Option.bind_some, Import.ofFragment?_shift]
        cases Import.ofFragment? f <;> rfl
    | openBrace => simp only [shift, step, hmark, hm, ownerOf_shift, List.map_nil]
    | closeBrace => simp only [shift, step, hmark, hm, List.map_nil]
  | block owner =>
    cases hm : c.mark with
    | semicolon =>
      simp only [shift, step, hmark, hm, hbody, List.map_nil]
      cases owner <;> simp [Rule.shift_declare]
    | openBrace => simp only [shift, step, hmark, hm, Clause.shift_start, List.map_nil]
    | closeBrace =>
      simp only [shift, step, hmark, hm, hbody, Clause.shift_stop]
      cases owner with
      | none => rfl
      | some r =>
        simp only [Option.map_some, Option.toList_some, List.map_cons, List.map_nil,
          SheetItem.shift, Rule.shift_declare, Rule.shift_endedAt]
  | nested owner start depth =>
    cases hm : c.mark with
    | semicolon => simp only [shift, step, hmark, hm, List.map_nil]
    | openBrace => simp only [shift, step, hmark, hm, List.map_nil]
    | closeBrace =>
      simp only [shift, step, hmark, hm, Clause.shift_stop]
      split <;> rfl

theorem finish_shift (n size : Nat) (last : Option Fragment) (level : Level) :
    (level.shift n).finish (size + n) (last.map (Fragment.shift n)) =
      (level.finish size last).map (SheetItem.shift n) := by
  cases level with
  | outside => rfl
  | block owner =>
    cases owner with
    | none => rfl
    | some r =>
      simp only [shift, finish, Option.map_some, Option.toList_some, List.map_cons, List.map_nil,
        SheetItem.shift, Rule.shift_declare, Rule.shift_endedAt]
  | nested owner start depth =>
    cases owner <;> rfl

end Level

/-- **Reading further back yields the same items there.** -/
theorem itemsFrom_shift (n size : Nat) (last : Option Fragment) (level : Level)
    (cs : List Clause) :
    itemsFrom (size + n) (last.map (Fragment.shift n)) (level.shift n) (cs.map (Clause.shift n)) =
      (itemsFrom size last level cs).map (SheetItem.shift n) := by
  induction cs generalizing level with
  | nil => exact Level.finish_shift n size last level
  | cons c cs ih =>
    rw [List.map_cons, itemsFrom, itemsFrom, Level.step_shift, ih, List.map_append]

/-! ## Texts that end a statement -/

/-- Behind the text, reading is back where it began: the text is empty, or its last token
    is a semicolon or a closing brace that ends the text and leaves no block open. -/
def Text.EndsStatement (text : Text) : Prop :=
  text = [] ∨ ∃ t, (tokens text).getLast? = some t ∧
    (t.kind = .mark .semicolon ∨ t.kind = .mark .closeBrace) ∧
    t.span.stop = text.byteLength ∧ depthOf (tokens text) = 0

theorem Text.piecesFrom_size_pos (place : Place) (text : Text) :
    ∀ p ∈ piecesFrom place text, 0 < p.size := by
  fun_induction piecesFrom place text with
  | case1 => simp
  | case2 place c cs ih =>
    intro p hp
    rcases List.mem_cons.1 hp with rfl | hp
    · exact byteLength_pos (nextPiece_chars_ne_nil place c cs)
    · exact ih p hp

theorem Text.chars_ne_nil_of_mem_pieces (text : Text) : ∀ p ∈ text.pieces, p.chars ≠ [] := by
  intro p hp hnil
  have hpos := piecesFrom_size_pos .origin text p hp
  simp [Piece.size, hnil] at hpos

theorem tokensFrom_stop_le (offset : Nat) (ps : List Piece) :
    ∀ t ∈ tokensFrom offset ps, t.span.stop ≤ offset + Text.byteLength (Piece.allChars ps) := by
  induction ps generalizing offset with
  | nil => simp [tokensFrom]
  | cons p ps ih =>
    intro t ht
    rw [Piece.allChars_cons, Text.byteLength_append, ← Nat.add_assoc]
    simp only [tokensFrom] at ht
    split at ht
    · rcases List.mem_cons.1 ht with rfl | ht
      · exact Nat.le_add_right ..
      · exact ih _ t ht
    · exact ih _ t ht

/-- A mark that ends the text is its last piece. -/
theorem Text.endWithMark_of_last {text : Text} {t : Token} (ht : (tokens text).getLast? = some t)
    (hm : t.isMark = true) (hstop : t.span.stop = text.byteLength) :
    Piece.EndWithMark text.pieces := by
  intro p hp
  obtain ⟨init, hinit⟩ := List.getLast?_eq_some_iff.1 hp
  have hmem : p ∈ piecesFrom .origin text := List.mem_of_getLast? hp
  have hpos : 0 < p.size := piecesFrom_size_pos .origin text p hmem
  have hsize : text.byteLength = Text.byteLength (Piece.allChars init) + p.size := by
    rw [← allChars_pieces text, hinit]
    simp [Piece.size]
  rw [tokens, hinit, tokensFrom_append] at ht
  cases hk : p.tokenKind? with
  | none =>
    -- The token would end before the last piece begins.
    simp only [tokensFrom, hk, List.append_nil] at ht
    have hle := tokensFrom_stop_le 0 init t (List.mem_of_getLast? ht)
    omega
  | some kind =>
    simp only [tokensFrom, hk, List.getLast?_append, List.getLast?_singleton, Option.some_or,
      Option.some.injEq] at ht
    subst ht
    cases p with
    | mark m => exact ⟨m, rfl⟩
    | quoted | word =>
      simp only [Piece.tokenKind?, Option.some.injEq] at hk
      simp [Token.isMark, ← hk] at hm
    | blank | blockComment | lineComment => simp [Piece.tokenKind?] at hk

namespace Text.EndsStatement

variable {text : Text}

theorem endWithMark (h : text.EndsStatement) : Piece.EndWithMark text.pieces := by
  rcases h with rfl | ⟨t, ht, hk, hstop, -⟩
  · simp [Piece.EndWithMark, pieces, piecesFrom]
  · refine endWithMark_of_last ht ?_ hstop
    rcases hk with hk | hk <;> simp [Token.isMark, hk]

theorem depth_eq (h : text.EndsStatement) : depthOf (tokens text) = 0 := by
  rcases h with rfl | ⟨-, -, -, -, hd⟩
  · simp [tokens, pieces, piecesFrom, tokensFrom, depthOf]
  · exact hd

/-- Behind the text, reading stands outside of all blocks. -/
theorem behind_eq (h : text.EndsStatement) :
    Level.outside.behind text.clauses.1 = .outside := by
  have houtside : Level.outside.Valid := trivial
  apply Level.eq_outside
  rw [Level.behind_depth houtside, ← filter_tokens]
  show depthOf _ = 0
  rw [depthOf_filter, h.depth_eq]

end Text.EndsStatement

/-- **Behind a statement that ends outside of all blocks,** the items of a text are those that
    it has alone, further back. -/
theorem Text.items_append {a : Text} (h : a.EndsStatement) (b : Text) :
    (a ++ b).items = a.items ++ b.items.map (SheetItem.shift a.byteLength) := by
  -- Behind `a` nothing is open, so the end of the text completes nothing more.
  have ha : a.items = Level.outside.completed a.clauses.1 := by
    rw [items, ← List.append_nil a.clauses.1, itemsFrom_append, h.behind_eq, itemsFrom]
    simp [Level.finish]
  have hsize : (a ++ b).byteLength = b.byteLength + a.byteLength := by
    rw [Text.byteLength_append]; omega
  rw [items, clauses_append h.endWithMark, itemsFrom_append, h.behind_eq, hsize, ← ha]
  exact congrArg _ (itemsFrom_shift a.byteLength b.byteLength b.clauses.2 .outside b.clauses.1)

/-! ## Sheets -/

/-- The variable `n` bytes further back, behind `k` more rules. -/
def CustomProperty.shift (n k : Nat) (c : CustomProperty) : CustomProperty :=
  { c with nameSpan := c.nameSpan.shift n, span := c.span.shift n, rule := c.rule + k }

namespace Sheet

/-- The contents of a sheet are those of a first one and behind them those of a second one, which
    stands `n` bytes further back. -/
structure IsConcat (s first second : Sheet) (n : Nat) : Prop where
  rules : s.rules = first.rules ++ second.rules.map (Rule.shift n)
  imports : s.imports = first.imports ++ second.imports.map (Import.shift n)
  nestedBlocks : s.nestedBlocks = first.nestedBlocks ++ second.nestedBlocks.map (Span.shift n)
  customProperties : s.customProperties = first.customProperties ++
    second.customProperties.map (CustomProperty.shift n first.rules.length)

theorem filterMap_append_shift {α : Type} {get? : SheetItem → Option α} {shift : α → α} {n : Nat}
    (h : ∀ x, get? (x.shift n) = (get? x).map shift) (xs ys : List SheetItem) :
    (xs ++ ys.map (SheetItem.shift n)).filterMap get? =
      xs.filterMap get? ++ (ys.filterMap get?).map shift := by
  rw [List.filterMap_append, List.filterMap_map, List.map_filterMap]
  congr 2
  funext x
  exact h x

/-- The variables of two sheets, when the rules of the second stand behind those of the first. -/
theorem customProperties_append {s first second : Sheet} {n : Nat}
    (h : s.rules = first.rules ++ second.rules.map (Rule.shift n)) :
    s.customProperties = first.customProperties ++
      second.customProperties.map (CustomProperty.shift n first.rules.length) := by
  unfold customProperties
  rw [h, List.zipIdx_append, List.flatMap_append, Nat.zero_add, List.zipIdx_map,
    List.zipIdx_eq_map_add (i := first.rules.length), List.flatMap_map, List.flatMap_map,
    List.map_flatMap]
  congr 2
  funext ⟨r, index⟩
  simp only [Prod.map, id_eq, Rule.shift, List.filter_map, List.map_map,
    Nat.add_comm first.rules.length]
  rfl

theorem ofText_append {a : Text} (h : a.EndsStatement) (b : Text) :
    (ofText (a ++ b)).IsConcat (ofText a) (ofText b) a.byteLength := by
  have hrules : (ofText (a ++ b)).rules =
      (ofText a).rules ++ (ofText b).rules.map (Rule.shift a.byteLength) := by
    simp only [ofText, Text.items_append h]
    exact filterMap_append_shift (fun x => by cases x <;> rfl) ..
  refine ⟨hrules, ?_, ?_, customProperties_append hrules⟩
  · simp only [ofText, Text.items_append h]
    exact filterMap_append_shift (fun x => by cases x <;> rfl) ..
  · simp only [ofText, Text.items_append h]
    exact filterMap_append_shift (fun x => by cases x <;> rfl) ..

/-- **Reading is compositional:** behind a text that ends a statement outside of all blocks,
    whatever else stands in it, a style sheet is read as if it stood alone. -/
theorem parse_append {a : String} (h : Text.EndsStatement a.toList) (b : String) :
    (parse (a ++ b)).IsConcat (parse a) (parse b) (Text.byteLength a.toList) := by
  unfold parse
  rw [String.toList_append]
  exact ofText_append h b.toList

/-- Behind a stray brace, a nested block and a rule, a variable is declared in rule one. -/
theorem parse_append_stray :
    Text.EndsStatement "\x7d a\x7bb\x7b\x7d--c:1\x7d".toList ∧
      (parse ("\x7d a\x7bb\x7b\x7d--c:1\x7d" ++ ".x\x7b--y:2\x7d")).IsConcat
        (parse "\x7d a\x7bb\x7b\x7d--c:1\x7d") (parse ".x\x7b--y:2\x7d") 13 := by
  have h : Text.EndsStatement "\x7d a\x7bb\x7b\x7d--c:1\x7d".toList :=
    Or.inr ⟨⟨.mark .closeBrace, ⟨12, 13⟩⟩, by decide +kernel⟩
  exact ⟨h, parse_append h ".x\x7b--y:2\x7d"⟩

end Sheet

end StyleServer
