/-
  Rules and the braces of their blocks.

  Reading opens a rule by its level, which counts no braces outside of nested blocks.  Here
  the rules are compared with the tokens alone: `ruleOpenings` are the opening braces at
  depth zero behind a text that does not begin with `@`.

  * `Rule.EndsIn`: where a rule ends whose block is open at a depth, and whether it is closed.
  * `Level.step_inside`, `rules_ofPieces`: what a clause does to an open rule, and what
    reading yields: the open rule, and one rule for each opening to come.
  * `blockOpenings_returns`, `exists_opening`: only the last block can be left open.
  * `Sheet.ofText_matchesBraces`: rules, depth and the check of braces agree.
-/
import StyleServer.Proofs.Sheet.Concat
import StyleServer.Proofs.Sheet.Layout
import StyleServer.Proofs.Sheet.Nesting

namespace StyleServer

/-! ## Tokens and their neighbours -/

/-- A token with those before it and those behind it. -/
structure TokenAt where
  before : List Token
  token : Token
  behind : List Token

/-- The tokens of a list one by one, with `before` before them all. -/
def occurrencesFrom (before : List Token) : List Token → List TokenAt
  | [] => []
  | t :: ts => ⟨before, t, ts⟩ :: occurrencesFrom (before ++ [t]) ts

namespace TokenAt

/-- The strings and words behind the last mark before a token. -/
def pending (o : TokenAt) : List Token := (o.before.reverse.takeWhile (!·.isMark)).reverse

/-- An opening brace at depth zero. -/
def opensBlock (o : TokenAt) : Bool := o.token.kind == .mark .openBrace && depthOf o.before == 0

/-- An opening brace at depth zero behind some text that does not begin with `@`. -/
def opensRule (text : Text) (o : TokenAt) : Bool :=
  o.opensBlock && match o.pending with
    | [] => false
    | first :: _ => (text.slice? first.span).bind List.head? != some '@'

theorem opensBlock_iff {o : TokenAt} :
    o.opensBlock = true ↔ o.token.kind = .mark .openBrace ∧ depthOf o.before = 0 := by
  simp [opensBlock]

/-- A brace that opens a rule has text before it. -/
theorem exists_pending {text : Text} {o : TokenAt} (h : o.opensRule text = true) :
    ∃ first, o.pending.head? = some first := by
  cases hp : o.pending with
  | nil => simp [opensRule, hp] at h
  | cons first rest => exact ⟨first, rfl⟩

theorem opensBlock_of_opensRule {text : Text} {o : TokenAt} (h : o.opensRule text = true) :
    o.opensBlock = true := (Bool.and_eq_true_iff.1 h).1

end TokenAt

/-- The opening braces at depth zero. -/
def blockOpenings (text : Text) : List TokenAt :=
  (occurrencesFrom [] (tokens text)).filter TokenAt.opensBlock

/-- The opening braces that open rules. -/
def ruleOpenings (text : Text) : List TokenAt :=
  (occurrencesFrom [] (tokens text)).filter (TokenAt.opensRule text)

theorem occurrencesFrom_append (before ts us : List Token) :
    occurrencesFrom before (ts ++ us) =
      (occurrencesFrom before ts).map (fun o => { o with behind := o.behind ++ us }) ++
        occurrencesFrom (before ++ ts) us := by
  induction ts generalizing before with
  | nil => simp [occurrencesFrom]
  | cons t ts ih => simp [occurrencesFrom, ih]

/-- An occurrence stands where it says. -/
theorem mem_occurrencesFrom {before ts : List Token} {o : TokenAt}
    (h : o ∈ occurrencesFrom before ts) :
    ∃ front, o.before = before ++ front ∧ ts = front ++ o.token :: o.behind := by
  induction ts generalizing before with
  | nil => simp [occurrencesFrom] at h
  | cons t ts ih =>
    rcases List.mem_cons.1 h with rfl | h
    · exact ⟨[], by simp, rfl⟩
    · obtain ⟨front, hbefore, hts⟩ := ih h
      exact ⟨t :: front, by simp [hbefore], by simp [← hts]⟩

/-- Of two occurrences, the first stands before the second. -/
theorem occurrencesFrom_pairwise (before ts : List Token) :
    (occurrencesFrom before ts).Pairwise fun o p =>
      ∃ mid, o.behind = mid ++ p.token :: p.behind ∧ p.before = o.before ++ o.token :: mid := by
  induction ts generalizing before with
  | nil => exact .nil
  | cons t ts ih =>
    refine List.pairwise_cons.2 ⟨fun p hp => ?_, ih _⟩
    obtain ⟨front, hbefore, hts⟩ := mem_occurrencesFrom hp
    exact ⟨front, hts, by simp [hbefore]⟩

/-- Strings and words open nothing. -/
theorem filter_occurrencesFrom_text (text : Text) {ts : List Token}
    (h : ∀ t ∈ ts, t.isMark = false) (before us : List Token) :
    (occurrencesFrom before (ts ++ us)).filter (TokenAt.opensRule text) =
      (occurrencesFrom (before ++ ts) us).filter (TokenAt.opensRule text) := by
  induction ts generalizing before with
  | nil => simp
  | cons t ts ih =>
    have ht : (⟨before, t, ts ++ us⟩ : TokenAt).opensRule text = false := by
      have hk : t.kind = .text := by simpa [Token.isMark] using h t List.mem_cons_self
      simp [TokenAt.opensRule, TokenAt.opensBlock, hk]
    rw [List.cons_append, occurrencesFrom, List.filter_cons_of_neg (by simp [ht]),
      ih (fun u hu => h u (List.mem_cons_of_mem _ hu)), List.append_assoc]
    rfl

/-- Behind a mark, the pending text is what has been read since. -/
theorem TokenAt.pending_eq {before ts : List Token} (hb : ∀ t ∈ before.getLast?, t.isMark = true)
    (ht : ∀ t ∈ ts, t.isMark = false) (t : Token) (behind : List Token) :
    (⟨before ++ ts, t, behind⟩ : TokenAt).pending = ts := by
  have hts : ∀ u ∈ ts.reverse, (!u.isMark) = true := fun u hu => by
    simp [ht u (List.mem_reverse.1 hu)]
  have hbefore : before.reverse.takeWhile (!·.isMark) = [] := by
    rcases List.eq_nil_or_concat before with rfl | ⟨init, u, rfl⟩
    · rfl
    · simp [hb u (by simp)]
  rw [pending, List.reverse_append, List.takeWhile_append_of_pos hts, hbefore, List.append_nil,
    List.reverse_reverse]

/-! ## Where a rule ends -/

/-- The tokens lead back to depth zero. -/
def Returns (depth : Nat) (ts : List Token) : Prop :=
  ∃ front, front <+: ts ∧ front.foldl depthAfter depth = 0

theorem returns_nil {depth : Nat} (h : 0 < depth) : ¬ Returns depth [] := by
  rintro ⟨front, hf, hd⟩
  rw [List.prefix_nil.1 hf] at hd
  exact absurd hd (Nat.ne_of_gt h)

theorem returns_cons {depth : Nat} (h : 0 < depth) {t : Token} {ts : List Token} :
    Returns depth (t :: ts) ↔ Returns (depthAfter depth t) ts := by
  constructor
  · rintro ⟨front, hf, hd⟩
    rcases List.prefix_cons_iff.1 hf with rfl | ⟨front, rfl, hts⟩
    · exact absurd hd (Nat.ne_of_gt h)
    · exact ⟨front, hts, hd⟩
  · rintro ⟨front, hf, hd⟩
    exact ⟨t :: front, List.cons_prefix_cons.2 ⟨rfl, hf⟩, hd⟩

/-- A rule that begins at `start` and whose block is open at `depth`, with the tokens `ts` to
    come: the rule ends with the block and is closed when the block is. -/
structure Rule.EndsIn (size depth : Nat) (ts : List Token) (start : Nat) (r : Rule) : Prop where
  start_eq : r.span.start = start
  ends : BlockEnds size 0 depth ts r.span.stop
  closed_iff : r.closed = true ↔ Returns depth ts

/-- The rule that an opening brace opens begins with the pending text. -/
def TokenAt.Opens (text : Text) (o : TokenAt) (r : Rule) : Prop :=
  ∃ first, o.pending.head? = some first ∧
    r.EndsIn text.byteLength 1 o.behind first.span.start

namespace Rule.EndsIn

variable {size depth start : Nat} {t : Token} {ts : List Token} {r : Rule}

theorem cons (h : r.EndsIn size (depthAfter depth t) ts start) (hd : 0 < depth) :
    r.EndsIn size depth (t :: ts) start :=
  ⟨h.start_eq, .cons hd h.ends, h.closed_iff.trans (returns_cons hd).symm⟩

/-- Strings and words change nothing. -/
theorem text {us : List Token} (h : r.EndsIn size depth us start) (hd : 0 < depth)
    (ht : ∀ t ∈ ts, t.isMark = false) : r.EndsIn size depth (ts ++ us) start := by
  induction ts with
  | nil => exact h
  | cons t ts ih =>
    have ih := ih fun u hu => ht u (List.mem_cons_of_mem _ hu)
    rw [← depthAfter_text (ht t List.mem_cons_self) depth] at ih
    exact ih.cons hd

/-- A closing brace at depth one ends the rule. -/
theorem close (hk : t.kind = .mark .closeBrace) (hstart : r.span.start = start)
    (hstop : r.span.stop = t.span.stop) (hclosed : r.closed = true) (us : List Token) :
    r.EndsIn size 1 (t :: us) start := by
  have hdepth : depthAfter 1 t = 0 := by simp [depthAfter, hk]
  refine ⟨hstart, Or.inl ⟨[], t, us, rfl, hk, hdepth, fun front hf => ?_, hstop⟩, ?_⟩
  · rw [List.prefix_nil.1 hf]
    exact Nat.one_pos
  · simp only [hclosed, true_iff]
    exact ⟨[t], by simp, hdepth⟩

/-- At the end of the text, the rule is left open. -/
theorem last (hd : 0 < depth) (hstart : r.span.start = start) (hstop : r.span.stop = size)
    (hclosed : r.closed = false) : r.EndsIn size depth [] start := by
  refine ⟨hstart, Or.inr ⟨fun front hf => ?_, hstop⟩, ?_⟩
  · rw [List.prefix_nil.1 hf]
    exact hd
  · simp [hclosed, returns_nil hd]

end Rule.EndsIn

/-! ## Reading -/

namespace Level

/-- Where the open rule begins, if there is one. -/
def openStarts (level : Level) : List Nat := (level.owner.map (·.span.start)).toList

/-- Outside of all blocks, a clause completes no rule. -/
theorem step_outside_rules (c : Clause) : (outside.step c).2.filterMap SheetItem.rule? = [] := by
  cases hm : c.mark with
  | semicolon =>
    simp only [step, hm]
    cases c.statement.bind Import.ofFragment? <;> rfl
  | openBrace | closeBrace => simp [step, hm]

/-- A clause that leaves a block open completes no rule and keeps the open one. -/
theorem step_inside {level : Level} (hd : 0 < level.depth) {c : Clause}
    (hopen : 0 < (level.step c).1.depth) :
    (level.step c).2.filterMap SheetItem.rule? = [] ∧
      (level.step c).1.openStarts = level.openStarts := by
  cases level with
  | outside => exact absurd hd (Nat.lt_irrefl 0)
  | block owner =>
    cases hm : c.mark with
    | semicolon =>
      simp only [step, hm, List.filterMap_nil, true_and, openStarts, Level.owner]
      cases owner <;> rfl
    | openBrace => exact ⟨by simp [step, hm], by simp [step, hm, openStarts, Level.owner]⟩
    | closeBrace => simp [step, hm, depth] at hopen
  | nested owner start depth =>
    cases hm : c.mark with
    | semicolon | openBrace =>
      exact ⟨by simp [step, hm], by simp [step, hm, openStarts, Level.owner]⟩
    | closeBrace =>
      simp only [step, hm]
      split
      · exact ⟨rfl, rfl⟩
      · exact ⟨rfl, rfl⟩

/-- A clause that leads out of all blocks closes a block by its brace. -/
theorem step_outward {level : Level} (hd : 0 < level.depth) {c : Clause}
    (hclose : (level.step c).1.depth = 0) :
    c.mark = .closeBrace ∧ ∃ owner, level = block owner := by
  cases level with
  | outside => exact absurd hd (Nat.lt_irrefl 0)
  | block owner =>
    cases hm : c.mark with
    | closeBrace => exact ⟨rfl, owner, rfl⟩
    | semicolon | openBrace => simp [step, hm, depth] at hclose
  | nested owner start depth =>
    cases hm : c.mark with
    | semicolon | openBrace => simp [step, hm, Level.depth] at hclose
    | closeBrace =>
      simp only [step, hm] at hclose
      split at hclose
      · simp [Level.depth] at hclose
      · simp [Level.depth] at hclose

/-- A clause inside a block completes the open rule, or the rule ends in what follows. -/
theorem step_endsIn {size : Nat} {level : Level} (h : level.Valid) (hd : 0 < level.depth)
    (c : Clause) {ts : List Token} {rs : List Rule}
    (hrs : List.Forall₂ (Rule.EndsIn size (level.step c).1.depth ts) (level.step c).1.openStarts rs) :
    List.Forall₂ (Rule.EndsIn size level.depth (c.token :: ts)) level.openStarts
      ((level.step c).2.filterMap SheetItem.rule? ++ rs) := by
  rcases Nat.eq_zero_or_pos (level.step c).1.depth with hclose | hopen
  · obtain ⟨hm, owner, rfl⟩ := step_outward hd hclose
    have hk : c.token.kind = .mark .closeBrace := by simp [Clause.token, hm]
    rw [eq_outside hclose] at hrs
    obtain rfl := List.forall₂_nil_left_iff.1 hrs
    cases owner with
    | none => simp [step, hm, openStarts, Level.owner]
    | some r =>
      simp only [step, hm]
      refine .cons (.close hk ?_ ?_ ?_ ts) .nil <;> rfl
  · obtain ⟨hnone, hstarts⟩ := step_inside hd hopen
    rw [hnone, List.nil_append, ← hstarts]
    rw [step_depth h] at hrs
    exact hrs.imp fun _ _ hr => hr.cons hd

/-- Strings and words change nothing. -/
theorem endsIn_text {size : Nat} {level : Level} {ts us : List Token} {rs : List Rule}
    (ht : ∀ t ∈ ts, t.isMark = false)
    (h : List.Forall₂ (Rule.EndsIn size level.depth us) level.openStarts rs) :
    List.Forall₂ (Rule.EndsIn size level.depth (ts ++ us)) level.openStarts rs := by
  rcases Nat.eq_zero_or_pos level.depth with hd | hd
  · rw [eq_outside hd] at h ⊢
    rw [List.forall₂_nil_left_iff.1 h]
    exact .nil
  · exact h.imp fun _ _ hr => hr.text hd ht

/-- What is left open at the end ends there. -/
theorem finish_rules {level : Level} (size : Nat) (last : Option Fragment) :
    ∃ rs, (level.finish size last).filterMap SheetItem.rule? = rs ∧
      List.Forall₂ (Rule.EndsIn size level.depth []) level.openStarts rs := by
  cases level with
  | outside => exact ⟨[], rfl, .nil⟩
  | block owner =>
    cases owner with
    | none => exact ⟨[], rfl, .nil⟩
    | some r => exact ⟨_, rfl, .cons (.last Nat.one_pos rfl rfl rfl) .nil⟩
  | nested owner start depth =>
    cases owner with
    | none => exact ⟨[], rfl, .nil⟩
    | some r => exact ⟨_, rfl, .cons (.last (Nat.succ_pos depth) rfl rfl rfl) .nil⟩

end Level

/-! ### The text before a brace -/

/-- The tokens of a group with a body begin with that of its first string or word. -/
theorem tokensFrom_body {group lead body gap : List Piece} (hb : Clause.Body group lead body gap)
    (hu : Piece.Unmarked group) (offset : Nat) :
    ∃ p rest ts, body = p :: rest ∧ tokensFrom offset group =
      ⟨.text, Fragment.span ⟨offset + Text.byteLength (Piece.allChars lead), p.chars⟩⟩ :: ts := by
  obtain ⟨p, rest, rfl, hp⟩ := hb.first
  refine ⟨p, rest, tokensFrom (offset + Text.byteLength (Piece.allChars lead) + p.size) (rest ++ gap),
    rfl, ?_⟩
  have hlead : Piece.Unmarked lead := fun q hq => hu q (by rw [hb.eq]; simp [hq])
  rw [hb.eq, List.append_assoc, tokensFrom_append, tokensFrom_blank offset hlead hb.lead_blank,
    List.nil_append, List.cons_append]
  cases p with
  | quoted | word => rfl
  | blank | blockComment | lineComment | mark => simp [Piece.isText] at hp

/-- A brace opens a rule exactly when reading its clause does, and the rule begins with the
    first string or word before the brace. -/
theorem openStarts_ownerOf {text front : Text} {group after : List Piece}
    (htext : text = front ++ Piece.allChars (group ++ .mark .openBrace :: after))
    (hu : Piece.Unmarked group) (hne : ∀ p ∈ group, p.chars ≠ []) {o : TokenAt}
    (hpending : o.pending = tokensFrom front.byteLength group) (hopen : o.opensBlock = true) :
    (Level.block (Level.ownerOf (.ofGroup front.byteLength group .openBrace))).openStarts =
      if o.opensRule text = true then (o.pending.head?.map (·.span.start)).toList else [] := by
  by_cases ht : ∃ p ∈ group, p.isText = true
  · obtain ⟨lead, body, gap, hb⟩ := Clause.exists_body ht
    obtain ⟨p, rest, ts, rfl, htokens⟩ := tokensFrom_body hb hu front.byteLength
    obtain ⟨c, cs, hc⟩ := List.exists_cons_of_ne_nil (hne p (by rw [hb.eq]; simp))
    let f : Fragment := ⟨front.byteLength + Text.byteLength (Piece.allChars lead), p.chars⟩
    have hin : f.In text := by
      refine ⟨front ++ Piece.allChars lead, Piece.allChars (rest ++ gap ++ .mark .openBrace :: after),
        ?_, Text.byteLength_append ..⟩
      rw [htext, hb.eq]
      simp [f]
    have hslice : (text.slice? f.span).bind List.head? = some c := by
      rw [hin.slice?_span]
      exact congrArg List.head? hc
    have hrule : o.opensRule text = true ↔ c ≠ '@' := by
      simp [TokenAt.opensRule, hopen, hpending, htokens, hslice, f]
    simp only [Level.openStarts, Level.owner, Level.ownerOf, Clause.ofGroup, hb.bodyOf?_eq,
      Piece.allChars_cons, hc, List.cons_append, List.head?_cons, Option.some.injEq, hrule,
      hpending, htokens]
    by_cases hat : c = '@'
    · simp [hat]
    · simp [hat, Rule.opened, Fragment.span]
  · have hblank : ∀ p ∈ group, p.isText = false := fun p hp => by
      simpa using fun htp => ht ⟨p, hp, htp⟩
    have hnone : o.opensRule text = false := by
      simp [TokenAt.opensRule, hpending, tokensFrom_blank _ hu hblank]
    simp [Level.openStarts, Level.owner, Level.ownerOf, Clause.ofGroup,
      Clause.bodyOf?_of_blank _ hblank, hnone]

theorem depthOf_append_text (before : List Token) {ts : List Token}
    (h : ∀ t ∈ ts, t.isMark = false) : depthOf (before ++ ts) = depthOf before := by
  have hnone : ts.filter Token.isMark = [] := List.filter_eq_nil_iff.2 fun t ht => by simp [h t ht]
  rw [← depthOf_filter, List.filter_append, hnone, List.append_nil, depthOf_filter]

/-- Outside of all blocks, a brace opens the rule that ends in what follows, or none. -/
theorem outside_opens {text front : Text} {group after : List Piece} {m : Mark}
    (htext : text = front ++ Piece.allChars (group ++ .mark m :: after))
    (hu : Piece.Unmarked group) (hne : ∀ p ∈ group, p.chars ≠ []) {o : TokenAt}
    (hpending : o.pending = tokensFrom front.byteLength group)
    (htoken : o.token = (Clause.ofGroup front.byteLength group m).token)
    (hbefore : depthOf o.before = 0) {rs : List Rule}
    (hrs : List.Forall₂
      (Rule.EndsIn text.byteLength
        (Level.outside.step (.ofGroup front.byteLength group m)).1.depth o.behind)
      (Level.outside.step (.ofGroup front.byteLength group m)).1.openStarts rs) :
    List.Forall₂ (TokenAt.Opens text) ([o].filter (TokenAt.opensRule text)) rs := by
  cases m with
  | openBrace =>
    have hopen : o.opensBlock = true := TokenAt.opensBlock_iff.2 ⟨by rw [htoken]; rfl, hbefore⟩
    have hstarts := openStarts_ownerOf htext hu hne hpending hopen
    change List.Forall₂ _
      (Level.block (Level.ownerOf (.ofGroup front.byteLength group .openBrace))).openStarts rs at hrs
    rw [hstarts] at hrs
    cases hrule : o.opensRule text with
    | false =>
      simp only [hrule, Bool.false_eq_true, if_false, List.forall₂_nil_left_iff] at hrs
      simp [hrule, hrs]
    | true =>
      obtain ⟨first, hfirst⟩ := TokenAt.exists_pending hrule
      rw [if_pos hrule, hfirst] at hrs
      obtain ⟨r, rs', hr, hnil, rfl⟩ := List.forall₂_cons_left_iff.1 hrs
      obtain rfl := List.forall₂_nil_left_iff.1 hnil
      rw [List.filter_cons_of_pos hrule]
      exact .cons ⟨first, hfirst, hr⟩ .nil
  | closeBrace | semicolon =>
    have hnot : o.opensRule text = false := by
      simp [TokenAt.opensRule, TokenAt.opensBlock, htoken, Clause.token, Clause.ofGroup]
    have hnone : rs = [] := List.forall₂_nil_left_iff.1 hrs
    simp [hnot, hnone]

/-! ### All rules -/

/-- **Reading yields the open rule and one for each opening to come.**  Induction along the
    marks; the level that is reached stands at the depth of the tokens read. -/
theorem rules_ofPieces {text front : Text} {ps : List Piece}
    (htext : text = front ++ Piece.allChars ps) (hne : ∀ p ∈ ps, p.chars ≠ [])
    {before : List Token} (hbefore : ∀ t ∈ before.getLast?, t.isMark = true) {level : Level}
    (hvalid : level.Valid) (hdepth : level.depth = depthOf before) :
    ∃ first rest, (itemsFrom text.byteLength (Clause.ofPieces front.byteLength ps).2 level
        (Clause.ofPieces front.byteLength ps).1).filterMap SheetItem.rule? = first ++ rest ∧
      List.Forall₂ (Rule.EndsIn text.byteLength level.depth (tokensFrom front.byteLength ps))
        level.openStarts first ∧
      List.Forall₂ (TokenAt.Opens text)
        ((occurrencesFrom before (tokensFrom front.byteLength ps)).filter (TokenAt.opensRule text))
        rest := by
  induction ps using Piece.marks_induction generalizing front before level with
  | last ps hu =>
    have hts := tokensFrom_unmarked front.byteLength hu
    obtain ⟨rs, hrs, hends⟩ := level.finish_rules text.byteLength
      (Clause.bodyOf? front.byteLength ps)
    have hnone := filter_occurrencesFrom_text text hts before []
    rw [List.append_nil] at hnone
    rw [Clause.ofPieces_unmarked _ hu, hnone]
    refine ⟨rs, [], by simpa [itemsFrom] using hrs, ?_, .nil⟩
    have hends := Level.endsIn_text hts hends
    rwa [List.append_nil] at hends
  | mark group m ps hu ih =>
    have hts := tokensFrom_unmarked front.byteLength hu
    -- Behind the mark: the level reached, the characters and the tokens read so far.
    let c := Clause.ofGroup front.byteLength group m
    have hfront : Text.byteLength (front ++ Piece.allChars group ++ [m.char]) = c.stop := by
      have hm : Text.byteLength [m.char] = 1 := Piece.byteLength_mark m
      simp only [Text.byteLength_append, hm, c, Clause.stop, Clause.ofGroup]
    have hread : depthOf (before ++ tokensFrom front.byteLength group) = depthOf before :=
      depthOf_append_text before hts
    have hlast : ∀ t ∈ (before ++ tokensFrom front.byteLength group ++ [c.token]).getLast?,
        t.isMark = true := by
      simp [Clause.token, Token.isMark]
    have hbehind : (level.step c).1.depth =
        depthOf (before ++ tokensFrom front.byteLength group ++ [c.token]) := by
      rw [Level.step_depth hvalid, hdepth, ← hread]
      simp [depthOf]
    have htext' : text = front ++ Piece.allChars group ++ [m.char] ++ Piece.allChars ps := by
      rw [htext]
      simp [Piece.chars]
    obtain ⟨first, rest, hitems, hfirst, hrest⟩ :=
      ih htext' (fun p hp => hne p (by simp [hp])) hlast (Level.step_valid hvalid c) hbehind
    rw [hfront] at hitems hfirst hrest
    let o : TokenAt := ⟨before ++ tokensFrom front.byteLength group, c.token, tokensFrom c.stop ps⟩
    have hopenings : (occurrencesFrom before
          (tokensFrom front.byteLength (group ++ .mark m :: ps))).filter (TokenAt.opensRule text) =
        [o].filter (TokenAt.opensRule text) ++
          (occurrencesFrom (before ++ tokensFrom front.byteLength group ++ [c.token])
            (tokensFrom c.stop ps)).filter (TokenAt.opensRule text) := by
      rw [tokensFrom_mark, filter_occurrencesFrom_text text hts, occurrencesFrom, ← List.filter_append]
      rfl
    rw [Clause.ofPieces_mark _ hu, itemsFrom, List.filterMap_append, hitems, hopenings]
    rcases Nat.eq_zero_or_pos level.depth with hd | hd
    · obtain rfl := Level.eq_outside hd
      have hopens := outside_opens htext hu (fun p hp => hne p (by simp [hp]))
        (TokenAt.pending_eq hbefore hts c.token (tokensFrom c.stop ps)) rfl
        (hread.trans hdepth.symm) hfirst
      rw [Level.step_outside_rules]
      exact ⟨[], first ++ rest, rfl, .nil, List.rel_append hopens hrest⟩
    · have hnot : o.opensRule text = false := by
        simp [TokenAt.opensRule, TokenAt.opensBlock, o, hread, ← hdepth, Nat.ne_of_gt hd]
      rw [List.filter_cons_of_neg (by simp [hnot]), tokensFrom_mark]
      exact ⟨_, rest, (List.append_assoc ..).symm,
        Level.endsIn_text hts (Level.step_endsIn hvalid hd c hfirst), hrest⟩

/-- **The rules of a text are those that its braces open.** -/
theorem rules_ofText (text : Text) :
    List.Forall₂ (TokenAt.Opens text) (ruleOpenings text) (Sheet.ofText text).rules := by
  have htext : text = [] ++ Piece.allChars text.pieces := (Text.allChars_pieces text).symm
  have hne := Text.chars_ne_nil_of_mem_pieces text
  have hbefore : ∀ t ∈ ([] : List Token).getLast?, t.isMark = true := by simp
  have houtside : Level.outside.Valid := trivial
  obtain ⟨first, rest, hitems, hfirst, hrest⟩ := rules_ofPieces htext hne hbefore houtside rfl
  obtain rfl := List.forall₂_nil_left_iff.1 hfirst
  have heq : (Sheet.ofText text).rules = rest := hitems
  rw [heq]
  exact hrest

/-! ## The last block -/

theorem ruleOpenings_eq (text : Text) :
    ruleOpenings text = (blockOpenings text).filter (TokenAt.opensRule text) := by
  rw [ruleOpenings, blockOpenings, List.filter_filter]
  refine List.filter_congr fun o _ => ?_
  cases h : o.opensRule text with
  | false => rfl
  | true => simp [TokenAt.opensBlock_of_opensRule h]

theorem mem_blockOpenings {text : Text} {o : TokenAt} (h : o ∈ blockOpenings text) :
    tokens text = o.before ++ o.token :: o.behind ∧ o.opensBlock = true := by
  obtain ⟨hmem, hopen⟩ := List.mem_filter.1 h
  obtain ⟨front, hbefore, htokens⟩ := mem_occurrencesFrom hmem
  rw [hbefore, List.nil_append]
  exact ⟨htokens, hopen⟩

/-- The depth in the block that a brace opens. -/
theorem TokenAt.depthOf_behind {o : TokenAt} (h : o.opensBlock = true) (ts : List Token) :
    depthOf (o.before ++ o.token :: ts) = ts.foldl depthAfter 1 := by
  obtain ⟨hk, hd⟩ := opensBlock_iff.1 h
  have hone : depthAfter (depthOf o.before) o.token = 1 := by simp [depthAfter, hk, hd]
  rw [depthOf, List.foldl_append, List.foldl_cons]
  exact congrArg (ts.foldl depthAfter) hone

/-- A block with another one behind it is closed. -/
theorem blockOpenings_returns (text : Text) :
    (blockOpenings text).Pairwise fun o _ => Returns 1 o.behind := by
  refine ((occurrencesFrom_pairwise [] (tokens text)).filter _).imp_of_mem ?_
  rintro o p ho hp ⟨mid, hbehind, hbefore⟩
  have hzero := (TokenAt.opensBlock_iff.1 (mem_blockOpenings hp).2).2
  rw [hbefore, TokenAt.depthOf_behind (mem_blockOpenings ho).2] at hzero
  exact ⟨mid, ⟨_, hbehind.symm⟩, hzero⟩

/-- Where the depth is zero and does not stay so, a block is opened. -/
theorem exists_opening {before ts : List Token} (hbefore : depthOf before = 0)
    (hopen : 0 < depthOf (before ++ ts)) : ∃ o ∈ occurrencesFrom before ts, o.opensBlock = true := by
  induction ts generalizing before with
  | nil => simp [hbefore] at hopen
  | cons t ts ih =>
    by_cases hk : t.kind = .mark .openBrace
    · exact ⟨_, List.mem_cons_self, TokenAt.opensBlock_iff.2 ⟨hk, hbefore⟩⟩
    · have hstep : depthOf (before ++ [t]) = 0 := by
        rw [depthOf, List.foldl_append]
        show depthAfter (depthOf before) t = 0
        rw [hbefore, depthAfter]
        split
        · next h => exact absurd h hk
        · rfl
        · rfl
        · rfl
      obtain ⟨o, ho, hopens⟩ := ih hstep (by simpa using hopen)
      exact ⟨o, List.mem_cons_of_mem _ ho, hopens⟩

/-- The last block is closed only if all is closed at the end. -/
theorem depthOf_tokens_of_returns {text : Text} {o : TokenAt}
    (ho : (blockOpenings text).getLast? = some o) (hr : Returns 1 o.behind) :
    depthOf (tokens text) = 0 := by
  obtain ⟨htokens, hopen⟩ := mem_blockOpenings (List.mem_of_getLast? ho)
  obtain ⟨inside, ⟨behind, hbehind⟩, hzero⟩ := hr
  have hsplit : tokens text = o.before ++ o.token :: inside ++ behind := by
    rw [htokens, ← hbehind]
    simp
  rw [← TokenAt.depthOf_behind hopen] at hzero
  rcases Nat.eq_zero_or_pos (depthOf (tokens text)) with hd | hd
  · exact hd
  · -- A block opened behind this one would be the last.
    rw [hsplit] at hd
    obtain ⟨p, hp, hpopen⟩ := exists_opening hzero hd
    have hne : ((occurrencesFrom (o.before ++ o.token :: inside) behind).filter
        TokenAt.opensBlock) ≠ [] := List.ne_nil_of_mem (List.mem_filter.2 ⟨hp, hpopen⟩)
    rw [blockOpenings, hsplit, occurrencesFrom_append, List.filter_append, List.nil_append,
      List.getLast?_append_of_ne_nil _ hne] at ho
    obtain ⟨front, hbefore, -⟩ := mem_occurrencesFrom (List.mem_filter.1 (List.mem_of_getLast? ho)).1
    have hlen := congrArg List.length hbefore
    simp at hlen

/-- A token is reported for nothing but a nested block or an unmatched brace. -/
theorem braceIssue?_eq_some {text : Text} {depth : Nat} {t : Token} {d : Diagnostic}
    (h : braceIssue? text depth t = some d) :
    d.issue = .nestedBlock ∨ d.issue = .unmatchedClosingBrace := by
  unfold braceIssue? at h
  split at h
  · obtain ⟨-, h⟩ := Option.ite_none_right_eq_some.1 h
    cases h
    exact Or.inl rfl
  · obtain ⟨-, h⟩ := Option.ite_none_right_eq_some.1 h
    cases h
    exact Or.inr rfl
  · simp at h
  · simp at h

/-- What is open at the end is reported. -/
theorem unclosedBrace_iff (text : Text) :
    (∃ d ∈ braceDiagnostics text, d.issue = .unclosedBrace) ↔ 0 < depthOf (tokens text) := by
  suffices h : ∀ depth ts, (∃ d ∈ braceDiagnosticsFrom text depth ts, d.issue = .unclosedBrace) ↔
      0 < ts.foldl depthAfter depth from h 0 (tokens text)
  intro depth ts
  induction ts generalizing depth with
  | nil =>
    rw [braceDiagnosticsFrom]
    split <;> simp_all
  | cons t ts ih =>
    -- No token by itself leaves a brace unclosed.
    have hother : ∀ d ∈ braceIssue? text depth t, d.issue ≠ .unclosedBrace := by
      intro d hd
      rcases braceIssue?_eq_some hd with h | h
      · simp [h]
      · simp [h]
    rw [braceDiagnosticsFrom, List.foldl_cons, ← ih]
    constructor
    · rintro ⟨d, hd, hissue⟩
      rcases List.mem_append.1 hd with hd | hd
      · exact absurd hissue (hother d (Option.mem_toList.1 hd))
      · exact ⟨d, hd, hissue⟩
    · rintro ⟨d, hd, hissue⟩
      exact ⟨d, List.mem_append_right _ hd, hissue⟩

/-! ## Agreement -/

/-- The rules of a sheet and the braces of its text. -/
structure Sheet.MatchesBraces (s : Sheet) : Prop where
  /-- One rule for each brace that opens one, from the text before the brace to the end of
      the block. -/
  rules : List.Forall₂ (TokenAt.Opens s.source) (ruleOpenings s.source) s.rules
  /-- Only the last rule can be left open. -/
  closed_before : ∀ r ∈ s.rules.dropLast, r.closed = true
  /-- It is left open when the last block is and belongs to a rule. -/
  unclosed_iff : (∃ r ∈ s.rules.getLast?, r.closed = false) ↔
    0 < depthOf (tokens s.source) ∧
      ∃ o ∈ (blockOpenings s.source).getLast?, o.opensRule s.source = true
  /-- A rule that is left open is reported. -/
  reported : (∃ r ∈ s.rules, r.closed = false) →
    ∃ d ∈ braceDiagnostics s.source, d.issue = .unclosedBrace
  /-- Without such a report, all rules are closed. -/
  all_closed : (∀ d ∈ braceDiagnostics s.source, d.issue ≠ .unclosedBrace) →
    ∀ r ∈ s.rules, r.closed = true

namespace Sheet

/-- The last rule is that of the last opening. -/
theorem ruleOpenings_last (text : Text) :
    ruleOpenings text = [] ∧ (ofText text).rules = [] ∨
      ∃ openings o rs r, ruleOpenings text = openings ++ [o] ∧ (ofText text).rules = rs ++ [r] ∧
        List.Forall₂ (TokenAt.Opens text) openings rs ∧ o.Opens text r := by
  have hall := List.forall₂_reverse_iff.2 (rules_ofText text)
  rcases List.eq_nil_or_concat (ruleOpenings text) with hnil | ⟨openings, o, hcons⟩
  · rw [hnil] at hall
    have hrev := List.forall₂_nil_left_iff.1 hall
    exact Or.inl ⟨hnil, List.reverse_eq_nil_iff.1 hrev⟩
  · rw [hcons, List.concat_eq_append, List.reverse_append] at hall
    obtain ⟨r, rs, hr, hrs, heq⟩ := List.forall₂_cons_left_iff.1 hall
    refine Or.inr ⟨openings, o, rs.reverse, r, by simpa using hcons, ?_, ?_, hr⟩
    · rw [← List.reverse_reverse (ofText text).rules, heq]
      simp
    · rw [← List.reverse_reverse openings]
      exact List.forall₂_reverse_iff.2 hrs

theorem closed_iff_of_opens {text : Text} {o : TokenAt} {r : Rule} (h : o.Opens text r) :
    r.closed = true ↔ Returns 1 o.behind := by
  obtain ⟨first, -, hends⟩ := h
  exact hends.closed_iff

/-- All rules but the last are closed. -/
theorem closed_before_last {text : Text} {openings : List TokenAt} {o : TokenAt} {rs : List Rule}
    (heq : ruleOpenings text = openings ++ [o])
    (hrs : List.Forall₂ (TokenAt.Opens text) openings rs) : ∀ r ∈ rs, r.closed = true := by
  have hpair : (ruleOpenings text).Pairwise fun o _ => Returns 1 o.behind := by
    rw [ruleOpenings_eq]
    exact (blockOpenings_returns text).filter _
  rw [heq, List.pairwise_append] at hpair
  have hreturns : ∀ o' ∈ openings, Returns 1 o'.behind := fun o' ho' =>
    hpair.2.2 o' ho' o (by simp)
  have hclosed := ((List.forall₂_and_left _ _).2 ⟨hreturns, hrs⟩).imp fun o' r h =>
    And.intro ((closed_iff_of_opens h.2).2 h.1) h.2
  exact ((List.forall₂_and_left _ _).1 hclosed.flip).1

/-- The last rule is left open when the last block is and belongs to a rule. -/
theorem last_unclosed_iff {text : Text} {openings : List TokenAt} {o : TokenAt} {r : Rule}
    (heq : ruleOpenings text = openings ++ [o]) (hr : o.Opens text r) :
    r.closed = false ↔ 0 < depthOf (tokens text) ∧
      ∃ p ∈ (blockOpenings text).getLast?, p.opensRule text = true := by
  have ho : o ∈ (blockOpenings text).filter (TokenAt.opensRule text) := by
    rw [← ruleOpenings_eq, heq]
    simp
  obtain ⟨hblock, hrule⟩ := List.mem_filter.1 ho
  obtain ⟨blocks, p, hp⟩ : ∃ blocks p, blockOpenings text = blocks ++ [p] := by
    rcases List.eq_nil_or_concat (blockOpenings text) with hnil | ⟨blocks, p, hp⟩
    · simp [hnil] at hblock
    · exact ⟨blocks, p, by simpa using hp⟩
  have hlast : (blockOpenings text).getLast? = some p := by simp [hp]
  constructor
  · intro hopen
    have hnot : ¬ Returns 1 o.behind := by simp [← closed_iff_of_opens hr, hopen]
    -- A block before the last one would be closed.
    have hop : o = p := by
      have hpair := blockOpenings_returns text
      rw [hp] at hblock hpair
      rcases List.mem_append.1 hblock with h | h
      · exact absurd ((List.pairwise_append.1 hpair).2.2 o h p (by simp)) hnot
      · exact List.mem_singleton.1 h
    obtain ⟨htokens, hopens⟩ := mem_blockOpenings hblock
    refine ⟨Nat.pos_of_ne_zero fun hzero => hnot ?_, p, hlast, hop ▸ hrule⟩
    rw [htokens, TokenAt.depthOf_behind hopens] at hzero
    exact ⟨o.behind, List.prefix_rfl, hzero⟩
  · rintro ⟨hdepth, p', hp', hprule⟩
    obtain rfl : p = p' := Option.some.inj (hlast.symm.trans hp')
    have hop : o = p := by
      have hlasts := congrArg List.getLast? ((ruleOpenings_eq text).symm.trans heq)
      rw [hp, List.filter_append, List.filter_cons_of_pos hprule] at hlasts
      simpa using hlasts.symm
    rw [← Bool.not_eq_true, closed_iff_of_opens hr]
    intro hreturns
    exact Nat.ne_of_gt hdepth (depthOf_tokens_of_returns (hop ▸ hlast) hreturns)

/-- Behind a rule that is left open, the depth stays above zero. -/
theorem depthOf_pos_of_unclosed {text : Text} {r : Rule} (hr : r ∈ (ofText text).rules)
    (hopen : r.closed = false) : 0 < depthOf (tokens text) := by
  rcases ruleOpenings_last text with ⟨-, hnil⟩ | ⟨openings, o, rs, last, heq, hrules, hrs, hlast⟩
  · simp [hnil] at hr
  · rw [hrules] at hr
    rcases List.mem_append.1 hr with hr | hr
    · simp [closed_before_last heq hrs r hr] at hopen
    · rw [List.mem_singleton.1 hr] at hopen
      exact ((last_unclosed_iff heq hlast).1 hopen).1

/-- **Rules, depth and the check of braces agree.** -/
theorem ofText_matchesBraces (text : Text) : (ofText text).MatchesBraces where
  rules := rules_ofText text
  closed_before := by
    rcases ruleOpenings_last text with ⟨-, hnil⟩ | ⟨openings, o, rs, r, heq, hrules, hrs, -⟩
    · simp [hnil]
    · rw [hrules, List.dropLast_concat]
      exact closed_before_last heq hrs
  unclosed_iff := by
    rcases ruleOpenings_last text with ⟨hopenings, hnil⟩ | ⟨openings, o, rs, r, heq, hrules, -, hr⟩
    · simp only [hnil, List.getLast?_nil, Option.not_mem_none, false_and, exists_false, false_iff]
      rintro ⟨-, o, ho, hrule⟩
      have hmem : o ∈ ruleOpenings text := by
        rw [ruleOpenings_eq]
        exact List.mem_filter.2 ⟨List.mem_of_getLast? ho, hrule⟩
      simp [hopenings] at hmem
    · rw [hrules]
      simpa [ofText] using last_unclosed_iff heq hr
  reported := by
    rintro ⟨r, hr, hopen⟩
    exact (unclosedBrace_iff text).2 (depthOf_pos_of_unclosed hr hopen)
  all_closed := by
    intro hnone r hr
    cases hopen : r.closed with
    | true => rfl
    | false =>
      obtain ⟨d, hd, hissue⟩ := (unclosedBrace_iff text).2 (depthOf_pos_of_unclosed hr hopen)
      exact absurd hissue (hnone d hd)

/-- The rules of every style sheet match its braces. -/
theorem parse_matchesBraces (text : String) : (parse text).MatchesBraces :=
  ofText_matchesBraces text.toList

end Sheet

end StyleServer
