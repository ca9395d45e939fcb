/-
  What is typed at the value of a declaration.

  Reading begins a declaration at its first string or word; what is typed at an offset is
  found from all that stands behind the last mark, comments too.

  * `Level.step_declares`, `itemsFrom_declares`: a declaration is read inside of a block, from
    the pieces behind a mark (`Text.DeclaredAt`).
  * `DeclaredAt.before_eq`: at its value, the last mark is that mark.
  * `DeclaredAt.context_eq`: so the name is looked for behind the blanks and comments before
    the declaration.
  * `completionContext_at_value`: without comments there the name is that of the declaration;
    with one, it begins with the comment.
-/
import StyleServer.Completion.Context
import StyleServer.Proofs.Piece.Partition
import StyleServer.Proofs.Sheet.Blocks
import StyleServer.Proofs.Sheet.Origin

namespace StyleServer

/-! ## Where declarations are read -/

/-- A declaration is read from the pieces `body`, inside of a block: a mark ends `front`, and
    between it and the body stand blanks and comments. -/
structure Text.DeclaredAt (text : Text) (d : Declaration) (front lead body after : List Piece) :
    Prop where
  pieces_eq : text.pieces = front ++ (lead ++ (body ++ after))
  endWithMark : Piece.EndWithMark front
  inside : 0 < depthOf (tokensFrom 0 front)
  lead_unmarked : Piece.Unmarked lead
  lead_blank : ∀ p ∈ lead, p.isText = false
  body_unmarked : Piece.Unmarked body
  origin : Declaration.ofFragment? ⟨Text.byteLength (Piece.allChars front) +
    Text.byteLength (Piece.allChars lead), Piece.allChars body⟩ = some d

/-- The declaration is read somewhere in the text. -/
def Text.Declares (text : Text) (d : Declaration) : Prop :=
  ∃ front lead body after, text.DeclaredAt d front lead body after

theorem Text.declares_of_group {text : Text} {front group after : List Piece}
    (h : text.pieces = front ++ (group ++ after)) (hfront : Piece.EndWithMark front)
    (hinside : 0 < depthOf (tokensFrom 0 front)) (hu : Piece.Unmarked group) {f : Fragment}
    (hf : Clause.bodyOf? (Text.byteLength (Piece.allChars front)) group = some f)
    {d : Declaration} (hd : Declaration.ofFragment? f = some d) : text.Declares d := by
  obtain ⟨lead, body, gap, hb, rfl⟩ := Clause.body_of_bodyOf? hf
  rw [hb.eq] at h hu
  refine ⟨front, lead, body, gap ++ after, by simpa using h, hfront, hinside, fun p hp => hu p ?_,
    hb.lead_blank, fun p hp => hu p ?_, hd⟩
  · simp [hp]
  · simp [hp]

section
variable {P : Declaration → Prop}

/-- All declarations of a rule satisfy `P`. -/
def Rule.Declares (P : Declaration → Prop) (r : Rule) : Prop := ∀ d ∈ r.declarations, P d

/-- All declarations that a statement writes satisfy `P`. -/
def Writes (P : Declaration → Prop) (statement : Option Fragment) : Prop :=
  ∀ f ∈ statement, ∀ d, Declaration.ofFragment? f = some d → P d

theorem Rule.Declares.declare {r : Rule} (h : r.Declares P) {statement : Option Fragment}
    (hs : Writes P statement) : (r.declare statement).Declares P := by
  intro d hd
  rcases List.mem_append.1 hd with hd | hd
  · exact h d hd
  · obtain ⟨f, hf, hd⟩ := Option.bind_eq_some_iff.1 (Option.mem_toList.1 hd)
    exact hs f hf d hd

/-- A rule that is opened has no declarations. -/
theorem Level.ownerOf_declares (c : Clause) : ∀ r ∈ ownerOf c, r.Declares P := by
  intro r hr
  unfold ownerOf at hr
  split at hr
  · split at hr
    · simp at hr
    · obtain rfl := Option.some.inj hr
      simp [Rule.Declares, Rule.opened]
  · simp at hr

/-- A clause writes a declaration at depth one, and nowhere else. -/
theorem Level.step_declares {level : Level} (h : ∀ r ∈ level.owner, r.Declares P) {c : Clause}
    (hc : level.depth = 1 → Writes P c.body) :
    (∀ r ∈ (level.step c).1.owner, r.Declares P) ∧
      ∀ r, .rule r ∈ (level.step c).2 → r.Declares P := by
  cases level with
  | outside =>
    cases hm : c.mark with
    | semicolon =>
      simp only [step, hm]
      refine ⟨h, fun r hr => ?_⟩
      obtain ⟨i, -, hi⟩ := Option.map_eq_some_iff.1 (Option.mem_toList.1 hr)
      simp at hi
    | openBrace =>
      simp only [step, hm]
      exact ⟨ownerOf_declares c, by simp⟩
    | closeBrace => simp [step, hm, Level.owner]
  | block owner =>
    have h : ∀ r ∈ owner, r.Declares P := h
    have hdeclare : ∀ r ∈ owner, (r.declare c.body).Declares P := fun r hr =>
      (h r hr).declare (hc rfl)
    cases hm : c.mark with
    | semicolon =>
      simp only [step, hm]
      refine ⟨fun r' hr' => ?_, by simp⟩
      obtain ⟨r, hr, rfl⟩ := Option.map_eq_some_iff.1 hr'
      exact hdeclare r hr
    | openBrace =>
      simp only [step, hm]
      exact ⟨h, by simp⟩
    | closeBrace =>
      simp only [step, hm]
      refine ⟨by simp [Level.owner], fun r' hr' => ?_⟩
      obtain ⟨r, hr, heq⟩ := Option.map_eq_some_iff.1 (Option.mem_toList.1 hr')
      obtain rfl := SheetItem.rule.inj heq
      exact hdeclare r hr
  | nested owner start depth =>
    have h : ∀ r ∈ owner, r.Declares P := h
    cases hm : c.mark with
    | semicolon | openBrace =>
      simp only [step, hm]
      exact ⟨h, by simp⟩
    | closeBrace =>
      simp only [step, hm]
      split
      · exact ⟨h, by simp⟩
      · exact ⟨h, by simp⟩

theorem Level.finish_declares {level : Level} (h : ∀ r ∈ level.owner, r.Declares P) (size : Nat)
    {last : Option Fragment} (hlast : level.depth = 1 → Writes P last) :
    ∀ r, .rule r ∈ level.finish size last → r.Declares P := by
  intro r' hr'
  cases level with
  | outside => simp [finish] at hr'
  | block owner =>
    obtain ⟨r, hr, heq⟩ := Option.map_eq_some_iff.1 (Option.mem_toList.1 hr')
    obtain rfl := SheetItem.rule.inj heq
    exact (h r hr).declare (hlast rfl)
  | nested owner start depth =>
    rcases List.mem_cons.1 hr' with heq | hr'
    · simp at heq
    · obtain ⟨r, hr, heq⟩ := Option.map_eq_some_iff.1 (Option.mem_toList.1 hr')
      obtain rfl := SheetItem.rule.inj heq
      exact h r hr

end

theorem tokensFrom_concat_mark (offset : Nat) (group : List Piece) (m : Mark) :
    tokensFrom offset (group ++ [.mark m]) =
      tokensFrom offset group ++ [(Clause.ofGroup offset group m).token] :=
  tokensFrom_mark offset group m []

theorem depthOf_concat (ts : List Token) (t : Token) :
    depthOf (ts ++ [t]) = depthAfter (depthOf ts) t := by
  simp [depthOf]

/-- Reading from a mark on: the level counts the braces before it. -/
theorem itemsFrom_declares {text : Text} (size : Nat) {front ps : List Piece}
    (htext : text.pieces = front ++ ps) (hfront : Piece.EndWithMark front) {level : Level}
    (hvalid : level.Valid) (hdepth : level.depth = depthOf (tokensFrom 0 front))
    (howner : ∀ r ∈ level.owner, r.Declares text.Declares) :
    ∀ r, .rule r ∈ itemsFrom size (Clause.ofPieces (Text.byteLength (Piece.allChars front)) ps).2
        level (Clause.ofPieces (Text.byteLength (Piece.allChars front)) ps).1 →
      r.Declares text.Declares := by
  induction ps using Piece.marks_induction generalizing front level with
  | last ps hu =>
    rw [Clause.ofPieces_unmarked _ hu]
    have htext' : text.pieces = front ++ (ps ++ []) := by rw [htext, List.append_nil]
    exact Level.finish_declares howner size fun hone f hf d hd =>
      Text.declares_of_group htext' hfront (by omega) hu hf hd
  | mark group m ps hu ih =>
    have hwrites : level.depth = 1 → Writes text.Declares
        (Clause.ofGroup (Text.byteLength (Piece.allChars front)) group m).body :=
      fun hone f hf d hd => Text.declares_of_group htext hfront (by omega) hu hf hd
    obtain ⟨howner', hitems⟩ := Level.step_declares howner hwrites
    have hfront' : Piece.EndWithMark (front ++ (group ++ [.mark m])) := by
      intro p hp
      rw [← List.append_assoc, List.getLast?_concat] at hp
      exact ⟨m, (Option.some.inj hp).symm⟩
    have hstop : Text.byteLength (Piece.allChars (front ++ (group ++ [.mark m]))) =
        (Clause.ofGroup (Text.byteLength (Piece.allChars front)) group m).stop := by
      rw [Piece.allChars_append, Text.byteLength_append, Clause.size_mark]
      rfl
    have hdepth' :
        (level.step (Clause.ofGroup (Text.byteLength (Piece.allChars front)) group m)).1.depth =
        depthOf (tokensFrom 0 (front ++ (group ++ [.mark m]))) := by
      rw [Level.step_depth hvalid, hdepth, tokensFrom_append, tokensFrom_concat_mark, Nat.zero_add,
        ← List.append_assoc, depthOf_concat, depthOf_append_text _ (tokensFrom_unmarked _ hu)]
    rw [Clause.ofPieces_mark _ hu, ← hstop]
    intro r hr
    rcases List.mem_append.1 hr with hr | hr
    · exact hitems r hr
    · exact ih (by rw [htext]; simp) hfront' (Level.step_valid hvalid _) hdepth' howner' r hr

/-- **A declaration is read inside of a block,** behind a mark. -/
theorem Sheet.declares {text : Text} {d : Declaration} (h : d ∈ (ofText text).declarations) :
    text.Declares d := by
  obtain ⟨r, hr, hd⟩ := List.mem_flatMap.1 h
  have htext : text.pieces = [] ++ text.pieces := rfl
  have hfront : Piece.EndWithMark [] := by simp [Piece.EndWithMark]
  have hvalid : Level.outside.Valid := trivial
  exact itemsFrom_declares text.byteLength htext hfront hvalid rfl (by simp [Level.owner]) r
    (mem_rules hr) d hd

/-- Before the first separator stands no other. -/
theorem Fragment.cutAt_before {sep : Char} {f a b : Fragment} (h : f.cutAt sep = some (a, b)) :
    ∀ c ∈ a.chars, c ≠ sep := by
  unfold cutAt at h
  split at h
  · simp at h
  · simp only [Option.some.injEq, Prod.mk.injEq] at h
    rw [← h.1]
    intro c hc
    simpa using List.all_eq_true.1 List.all_takeWhile c hc

/-! ## The cursor -/

namespace Cursor

theorem step_eq (c : Cursor) (t : Token) :
    c.step t = ⟨depthAfter c.depth t, if t.isMark then t.span.stop else c.segment⟩ := by
  obtain ⟨kind, span⟩ := t
  cases kind with
  | mark m => cases m <;> rfl
  | text => rfl

theorem foldl_step_depth (ts : List Token) (c : Cursor) :
    (ts.foldl step c).depth = ts.foldl depthAfter c.depth := by
  induction ts generalizing c with
  | nil => rfl
  | cons t ts ih => rw [List.foldl_cons, ih, step_eq, List.foldl_cons]

/-- Strings and words do not move the cursor. -/
theorem foldl_step_text {ts : List Token} (h : ∀ t ∈ ts, t.isMark = false) (c : Cursor) :
    ts.foldl step c = c := by
  induction ts with
  | nil => rfl
  | cons t ts ih =>
    have ht := h t List.mem_cons_self
    have hstep : c.step t = c := by simp [step_eq, ht, depthAfter_text ht]
    rw [List.foldl_cons, hstep, ih fun u hu => h u (List.mem_cons_of_mem _ hu)]

/-- The cursor stands behind a mark. -/
theorem foldl_step_front {front : List Piece} (h : Piece.EndWithMark front)
    (hinside : 0 < depthOf (tokensFrom 0 front)) :
    (tokensFrom 0 front).foldl step ⟨0, 0⟩ =
      ⟨depthOf (tokensFrom 0 front), Text.byteLength (Piece.allChars front)⟩ := by
  rcases List.eq_nil_or_concat front with rfl | ⟨init, p, rfl⟩
  · simp [tokensFrom, depthOf] at hinside
  · obtain ⟨m, rfl⟩ := h p (by simp)
    rw [List.concat_eq_append, tokensFrom_concat_mark, List.foldl_append, List.foldl_cons,
      List.foldl_nil, step_eq, foldl_step_depth, depthOf_concat]
    simp [Token.isMark, Clause.token, Clause.stop, Clause.ofGroup, depthOf]

end Cursor

namespace Text.DeclaredAt

variable {text : Text} {d : Declaration} {front lead body after : List Piece}

theorem text_eq (h : text.DeclaredAt d front lead body after) :
    text = Piece.allChars front ++ (Piece.allChars lead ++
      (Piece.allChars body ++ Piece.allChars after)) := by
  rw [← Piece.allChars_append, ← Piece.allChars_append, ← Piece.allChars_append, ← h.pieces_eq]
  exact (Text.allChars_pieces text).symm

theorem unmarked (h : text.DeclaredAt d front lead body after) : Piece.Unmarked (lead ++ body) :=
  List.forall_mem_append.2 ⟨h.lead_unmarked, h.body_unmarked⟩

theorem tokens_eq (h : text.DeclaredAt d front lead body after) :
    tokens text = tokensFrom 0 front ++
      (tokensFrom (Text.byteLength (Piece.allChars front)) (lead ++ body) ++
        tokensFrom (Text.byteLength (Piece.allChars front) +
          Text.byteLength (Piece.allChars (lead ++ body))) after) := by
  rw [tokens, h.pieces_eq, ← List.append_assoc lead, tokensFrom_append, Nat.zero_add,
    tokensFrom_append]

/-- The marks of a text stand before a declaration or behind it. -/
theorem mark_beside (h : text.DeclaredAt d front lead body after) {t : Token}
    (ht : t ∈ tokens text) (hm : t.isMark = true) :
    t.span.stop ≤ Text.byteLength (Piece.allChars front) ∨
      Text.byteLength (Piece.allChars front) + Text.byteLength (Piece.allChars (lead ++ body)) ≤
        t.span.start := by
  rw [h.tokens_eq] at ht
  rcases List.mem_append.1 ht with ht | ht
  · obtain ⟨u, p, v, rfl, -, hspan⟩ := mem_tokensFrom ht
    rw [hspan]
    simp [Piece.size, ← Nat.add_assoc]
  · rcases List.mem_append.1 ht with ht | ht
    · simp [tokensFrom_unmarked _ h.unmarked t ht] at hm
    · obtain ⟨u, p, v, -, -, hspan⟩ := mem_tokensFrom ht
      rw [hspan]
      exact .inr (Nat.le_add_right ..)

/-- **At a declaration, the last mark is the one before it.** -/
theorem before_eq (h : text.DeclaredAt d front lead body after) {o : Nat}
    (hlo : Text.byteLength (Piece.allChars front) ≤ o)
    (hhi : o ≤ Text.byteLength (Piece.allChars front) +
      Text.byteLength (Piece.allChars (lead ++ body))) :
    Cursor.before text o =
      ⟨depthOf (tokensFrom 0 front), Text.byteLength (Piece.allChars front)⟩ := by
  have hfront : ∀ t ∈ tokensFrom 0 front, decide (t.span.start < o) = true := by
    intro t ht
    have hpos := (tokens_span (h.tokens_eq ▸ List.mem_append_left _ ht : t ∈ tokens text)).1
    obtain ⟨u, p, v, rfl, -, hspan⟩ := mem_tokensFrom ht
    rw [hspan] at hpos ⊢
    simp only [Piece.allChars_append, Piece.allChars_cons, Text.byteLength_append, Piece.size]
      at hlo hpos
    simp only [decide_eq_true_eq]
    omega
  rw [Cursor.before, h.tokens_eq, List.takeWhile_append_of_pos hfront, List.foldl_append,
    Cursor.foldl_step_front h.endWithMark h.inside]
  refine Cursor.foldl_step_text (fun t ht => ?_) _
  have hlt : t.span.start < o := by
    simpa using List.all_eq_true.1 List.all_takeWhile t ht
  rcases List.mem_append.1 ((List.takeWhile_sublist _).subset ht) with ht | ht
  · exact tokensFrom_unmarked _ h.unmarked t ht
  · obtain ⟨u, p, v, -, -, hspan⟩ := mem_tokensFrom ht
    rw [hspan] at hlt
    simp only at hlt
    omega

/-- What is typed where `written` stands behind the mark. -/
theorem context_of_written (h : text.DeclaredAt d front lead body after) {written b : Text}
    (htext : text = Piece.allChars front ++ (written ++ b))
    (hle : written.byteLength ≤ Text.byteLength (Piece.allChars (lead ++ body))) :
    completionContext text (Text.byteLength (Piece.allChars front) + written.byteLength) =
      .ok (.ofDeclaration written) := by
  have hcursor := h.before_eq (Nat.le_add_right _ written.byteLength) (by omega)
  have hmin : min (Text.byteLength (Piece.allChars front) + written.byteLength) text.byteLength =
      Text.byteLength (Piece.allChars front) + written.byteLength := by
    rw [htext, byteLength_append, byteLength_append]
    omega
  have hin : Fragment.In ⟨Text.byteLength (Piece.allChars front), written⟩ text :=
    ⟨Piece.allChars front, b, by rw [htext, List.append_assoc], rfl⟩
  have hslice : text.slice? ⟨Text.byteLength (Piece.allChars front),
      Text.byteLength (Piece.allChars front) + written.byteLength⟩ = some written := hin.slice?_span
  simp only [completionContext, hmin, hcursor, hslice]
  rw [if_neg (Nat.ne_of_gt h.inside)]

/-- **What is typed at the value:** the name is looked for behind the mark, up to the first
    colon. -/
theorem context_eq (h : text.DeclaredAt d front lead body after) {o : Nat}
    (ho : text.isBoundary o = true) (htouch : d.valueSpan.touches o = true) :
    ∃ name typed, (∀ c ∈ name, c ≠ ':') ∧ d.name = String.ofList (Text.trim name) ∧
      completionContext text o =
        .ok (.ofDeclaration (Piece.allChars lead ++ (name ++ ':' :: typed))) := by
  obtain ⟨name, value, hcut, -, rfl⟩ := Declaration.ofFragment?_parts h.origin
  obtain ⟨hbody, -, hstart⟩ := Fragment.cutAt_split hcut
  have hpart := Fragment.trim_partOf value
  have hle : value.start ≤ o := Nat.le_trans hpart.start_le (Span.touches_iff.1 htouch).1
  have hge : o ≤ value.stop := Nat.le_trans (Span.touches_iff.1 htouch).2 hpart.stop_le
  have hcolon : ':'.utf8Size = 1 := rfl
  dsimp only [Fragment.stop] at hbody hstart hge
  -- The text up to the offset goes beyond the colon.
  obtain ⟨a, b, hab, rfl⟩ := isBoundary_iff.1 ho
  have hfront : (Piece.allChars front ++ (Piece.allChars lead ++ (name.chars ++ [':']))) ++
      (value.chars ++ Piece.allChars after) = a ++ b := by
    rw [← hab, h.text_eq, hbody]
    simp
  obtain ⟨typed, rfl, -⟩ := append_split hfront (by
    simp only [byteLength_append, byteLength_cons, byteLength_nil]
    omega)
  refine ⟨name.chars, typed, Fragment.cutAt_before hcut, rfl, ?_⟩
  have hoffset : Text.byteLength (Piece.allChars front ++ (Piece.allChars lead ++
      (name.chars ++ [':'])) ++ typed) = Text.byteLength (Piece.allChars front) +
        Text.byteLength (Piece.allChars lead ++ (name.chars ++ ':' :: typed)) := by
    simp
  rw [hoffset] at hge ⊢
  refine h.context_of_written (b := b) (by rw [hab]; simp) ?_
  simp only [Piece.allChars_append, hbody, byteLength_append, byteLength_cons] at hge ⊢
  omega

end Text.DeclaredAt

/-! ## The name that is found -/

/-- What begins with no blank is cut at its end only. -/
theorem Text.head?_trimEnd {c : Char} (h : isBlank c = false) (cs : Text) :
    (trimEnd (c :: cs)).head? = some c := by
  rw [trimEnd, List.reverse_cons, List.dropWhile_append]
  split
  · simp [h]
  · simp

namespace CompletionContext

section
variable {blanks : Text} (hb : ∀ c ∈ blanks, isAsciiBlank c = true)
include hb

theorem trim_blanks (chars : Text) : Text.trim (blanks ++ chars) = Text.trim chars := by
  rw [Text.trim, List.dropWhile_append_of_pos fun c hc => isBlank_of_isAsciiBlank (hb c hc),
    Text.trim]

theorem blanks_ne_colon : ∀ c ∈ blanks, c ≠ ':' := by
  rintro c hc rfl
  exact absurd (hb _ hc) (by decide)

/-- Blanks before a name do not count. -/
theorem ofDeclaration_blanks {name : Text} (hn : ∀ c ∈ name, c ≠ ':') (typed : Text) :
    ofDeclaration (blanks ++ (name ++ ':' :: typed)) = .value (String.ofList (Text.trim name)) := by
  have hcut := List.forall_mem_append.2 ⟨blanks_ne_colon hb, hn⟩
  rw [ofDeclaration, Fragment.whole, ← List.append_assoc, Fragment.cutAt_sep hcut]
  simp only [Fragment.text, Fragment.trim_chars, trim_blanks hb]

/-- A comment before a name is taken for the front of the name. -/
theorem ofDeclaration_comment {chars : Text} (hcolon : ':' ∈ chars) :
    ∃ name, ofDeclaration (blanks ++ '/' :: chars) = .value name ∧
      name.toList.head? = some '/' := by
  obtain ⟨front, rest, rfl, hfront⟩ := List.eq_append_cons_of_mem hcolon
  have hcut : ∀ c ∈ blanks ++ '/' :: front, c ≠ ':' := by
    refine List.forall_mem_append.2 ⟨blanks_ne_colon hb, List.forall_mem_cons.2 ⟨by decide, ?_⟩⟩
    rintro c hc rfl
    exact hfront hc
  refine ⟨String.ofList (Text.trim (blanks ++ '/' :: front)), ?_, ?_⟩
  · rw [ofDeclaration, Fragment.whole, ← List.cons_append, ← List.append_assoc,
      Fragment.cutAt_sep hcut]
    rfl
  · rw [String.toList_ofList, trim_blanks hb, Text.trim, List.dropWhile_cons_of_neg (by decide)]
    exact Text.head?_trimEnd (by decide) front

end

end CompletionContext

/-! ## Comments before a declaration -/

/-- Where a list is cut in two, each of its elements stands before the cut or behind it. -/
theorem split_cons {α : Type} {u v a b : List α} {p : α} (h : u ++ p :: v = a ++ b) :
    (∃ m, a = u ++ p :: m) ∨ ∃ m, u = a ++ m ∧ b = m ++ p :: v := by
  rcases List.append_eq_append_iff.1 h with ⟨m, ha, hb⟩ | ⟨m, hu, hb⟩
  · cases m with
    | nil => exact .inr ⟨[], by simpa using ha.symm, by simpa using hb.symm⟩
    | cons q m =>
      obtain ⟨rfl, -⟩ := List.cons.inj hb
      exact .inl ⟨m, ha⟩
  · exact .inr ⟨m, hu, hb⟩

/-- A comment begins before `start`, and no mark stands between them. -/
def Text.CommentBefore (text : Text) (start : Nat) : Prop :=
  ∃ u p v, text.pieces = u ++ p :: v ∧ p.isComment = true ∧
    Text.byteLength (Piece.allChars u) < start ∧
    ∀ t ∈ tokens text, t.isMark = true → Text.byteLength (Piece.allChars u) ≤ t.span.start →
      start ≤ t.span.start

theorem Piece.Shaped.comment_head {p : Piece} {rest : Text} (h : p.Shaped rest)
    (hc : p.isComment = true) : ∃ cs, p.chars = '/' :: cs := by
  cases p with
  | blockComment chars => cases h <;> exact ⟨_, rfl⟩
  | lineComment chars => cases h <;> exact ⟨_, rfl⟩
  | blank | mark | quoted | word => simp [isComment] at hc

/-- Blanks and comments: without a comment all characters are blank, and with one the first
    that is not blank is a slash. -/
theorem Piece.lead_chars {ps : List Piece} (hu : Unmarked ps) (ht : ∀ p ∈ ps, p.isText = false)
    (hs : ∀ p ∈ ps, ∃ rest, p.Shaped rest) :
    (∀ p ∈ ps, p.isComment = false) ∧ (∀ c ∈ allChars ps, isAsciiBlank c = true) ∨
      (∃ p ∈ ps, p.isComment = true) ∧
        ∃ blanks cs, allChars ps = blanks ++ '/' :: cs ∧ ∀ c ∈ blanks, isAsciiBlank c = true := by
  induction ps with
  | nil => exact .inl ⟨by simp, by simp⟩
  | cons p ps ih =>
    obtain ⟨rest, hp⟩ := hs p List.mem_cons_self
    have ih := ih (fun q hq => hu q (List.mem_cons_of_mem _ hq))
      (fun q hq => ht q (List.mem_cons_of_mem _ hq)) fun q hq => hs q (List.mem_cons_of_mem _ hq)
    cases hc : p.isComment with
    | true =>
      obtain ⟨cs, hchars⟩ := hp.comment_head hc
      exact .inr ⟨⟨p, List.mem_cons_self, hc⟩, [], cs ++ allChars ps, by simp [hchars], by simp⟩
    | false =>
      cases p with
      | blank c =>
        have hblank : isAsciiBlank c = true := hp
        rcases ih with ⟨hnone, hall⟩ | ⟨⟨q, hq, hcomment⟩, blanks, cs, hchars, hall⟩
        · refine .inl ⟨List.forall_mem_cons.2 ⟨hc, hnone⟩, ?_⟩
          exact List.forall_mem_cons.2 ⟨hblank, hall⟩
        · refine .inr ⟨⟨q, List.mem_cons_of_mem _ hq, hcomment⟩, c :: blanks, cs, ?_, ?_⟩
          · rw [allChars_cons, hchars]
            rfl
          · exact List.forall_mem_cons.2 ⟨hblank, hall⟩
      | mark m => exact absurd (hu _ List.mem_cons_self) (by simp [mark?])
      | quoted | word => exact absurd (ht _ List.mem_cons_self) (by simp [isText])
      | blockComment | lineComment => simp [isComment] at hc

namespace Text.DeclaredAt

variable {text : Text} {d : Declaration} {front lead body after : List Piece}

/-- Before the name of a declaration, its body has blanks only. -/
theorem span_start (h : text.DeclaredAt d front lead body after) :
    ∃ blanks rest, Piece.allChars body = blanks ++ rest ∧ (∀ c ∈ blanks, isBlank c = true) ∧
      d.span.start = Text.byteLength (Piece.allChars front) +
        Text.byteLength (Piece.allChars lead) + blanks.byteLength := by
  have hlaid := (Declaration.ofFragment?_laid h.origin).1
  obtain ⟨name, value, hcut, -, rfl⟩ := Declaration.ofFragment?_parts h.origin
  obtain ⟨hbody, hstart, -⟩ := Fragment.cutAt_split hcut
  obtain ⟨blanks, rest, hname, htrim, hblanks, -, -⟩ := Fragment.trim_spec name
  refine ⟨blanks, name.trim.chars ++ rest ++ ':' :: value.chars, ?_, hblanks, ?_⟩
  · rw [show Piece.allChars body = _ from hbody, hname]
    simp
  · rw [hlaid.span_eq]
    show name.trim.start = _
    rw [htrim, hstart]

theorem shaped_of_mem (h : text.DeclaredAt d front lead body after) {p : Piece} (hp : p ∈ lead) :
    ∃ rest, p.Shaped rest := by
  obtain ⟨u, v, rfl⟩ := List.append_of_mem hp
  have hpieces : text.pieces = (front ++ u) ++ p :: (v ++ (body ++ after)) := by
    rw [h.pieces_eq]
    simp
  exact ⟨_, (Text.shaped_of_split hpieces).1⟩

/-- A comment in front of the declaration, behind the mark. -/
theorem commentBefore (h : text.DeclaredAt d front lead body after) {p : Piece} (hp : p ∈ lead)
    (hc : p.isComment = true) : text.CommentBefore d.span.start := by
  have hlaid := Declaration.ofFragment?_laid h.origin
  have hspan := Span.holds_iff.1 hlaid.2
  have hname := hlaid.1.name_pos
  have hvalue := hlaid.1.name_lt_value
  have hstop := hlaid.1.value_le
  rw [hlaid.1.span_eq] at hspan ⊢
  dsimp only [Fragment.span, Fragment.stop] at hspan ⊢
  obtain ⟨rest, hshaped⟩ := h.shaped_of_mem hp
  have hpos := Text.byteLength_pos hshaped.chars_ne_nil
  obtain ⟨u, v, rfl⟩ := List.append_of_mem hp
  refine ⟨front ++ u, p, v ++ (body ++ after), by rw [h.pieces_eq]; simp, hc, ?_, ?_⟩
  · simp only [Piece.allChars_append, Piece.allChars_cons, byteLength_append] at hspan ⊢
    omega
  · intro t ht hm hle
    have hlt := (tokens_span ht).1
    have hbeside := h.mark_beside ht hm
    simp only [Piece.allChars_append, Piece.allChars_cons, byteLength_append] at hspan hle hbeside
    omega

/-- No other comment stands between the mark and the name. -/
theorem exists_comment (h : text.DeclaredAt d front lead body after)
    (hc : text.CommentBefore d.span.start) : ∃ p ∈ lead, p.isComment = true := by
  obtain ⟨u, p, v, hsplit, hcomment, hlt, hmarks⟩ := hc
  obtain ⟨blanks, rest, hbody, hblanks, hstart⟩ := h.span_start
  rcases split_cons (hsplit.symm.trans h.pieces_eq) with ⟨m, hfront⟩ | ⟨m, rfl, hrest⟩
  · -- The comment stands before the mark that ends `front`.
    rcases List.eq_nil_or_concat m with rfl | ⟨init, q, rfl⟩
    · obtain ⟨mark, rfl⟩ := h.endWithMark p (by simp [hfront])
      simp [Piece.isComment] at hcomment
    · rw [List.concat_eq_append] at hfront
      obtain ⟨mark, rfl⟩ := h.endWithMark q (by
        rw [hfront, ← List.cons_append, ← List.append_assoc]
        exact List.getLast?_concat)
      have hsplit' : text.pieces = (u ++ p :: init) ++ .mark mark :: (lead ++ (body ++ after)) := by
        rw [h.pieces_eq, hfront]
        simp
      have hmark := hmarks _ (mem_tokens_of_split hsplit' rfl) rfl (by simp)
      rw [hfront] at hstart
      simp only [Piece.allChars_append, Piece.allChars_cons, Piece.allChars_nil, List.append_nil,
        byteLength_append, Piece.byteLength_mark] at hstart hmark
      omega
  · rcases split_cons hrest.symm with ⟨m', rfl⟩ | ⟨m', rfl, hpart⟩
    · exact ⟨p, by simp, hcomment⟩
    · -- The comment stands in the body, where the name begins with its slash or before it.
      obtain ⟨cs, hchars⟩ := (Text.shaped_of_split hsplit).1.comment_head hcomment
      have hbefore : Text.byteLength (Piece.allChars m') ≤ blanks.byteLength := by
        rw [hstart] at hlt
        simp only [Piece.allChars_append, byteLength_append] at hlt
        omega
      have heq := congrArg Piece.allChars hpart
      rw [Piece.allChars_append, hbody, Piece.allChars_append, Piece.allChars_cons, hchars,
        List.append_assoc] at heq
      obtain ⟨x, rfl, hx⟩ := append_split heq.symm hbefore
      cases x with
      | nil =>
        rw [hstart] at hlt
        simp only [Piece.allChars_append, byteLength_append, byteLength_nil] at hlt
        omega
      | cons c x =>
        obtain ⟨rfl, -⟩ := List.cons.inj hx
        exact absurd (hblanks '/' (by simp)) (by decide)

end Text.DeclaredAt

/-- **What is typed at a value** is found as a value.  Its name is that of the declaration where
    no comment stands between the declaration and the mark before it; otherwise it begins with
    the first such comment. -/
theorem completionContext_at_value {text : Text} {d : Declaration}
    (hd : d ∈ (Sheet.ofText text).declarations) {o : Nat} (ho : text.isBoundary o = true)
    (htouch : d.valueSpan.touches o = true) :
    ∃ name, completionContext text o = .ok (.value name) ∧
      (¬ text.CommentBefore d.span.start → name = d.name) ∧
      (text.CommentBefore d.span.start → name.toList.head? = some '/') := by
  obtain ⟨front, lead, body, after, h⟩ := Sheet.declares hd
  obtain ⟨name, typed, hname, hd, hcontext⟩ := h.context_eq ho htouch
  have hlead := Piece.lead_chars h.lead_unmarked h.lead_blank fun p hp => h.shaped_of_mem hp
  rcases hlead with ⟨hnone, hblank⟩ | ⟨⟨p, hp, hcomment⟩, blanks, cs, hchars, hblank⟩
  · rw [CompletionContext.ofDeclaration_blanks hblank hname] at hcontext
    refine ⟨_, hcontext, fun _ => hd.symm, fun hcomment => ?_⟩
    obtain ⟨p, hp, hc⟩ := h.exists_comment hcomment
    simp [hnone p hp] at hc
  · rw [hchars, List.append_assoc, List.cons_append] at hcontext
    have hcolon : ':' ∈ cs ++ (name ++ ':' :: typed) := by simp
    obtain ⟨found, hfound, hhead⟩ := CompletionContext.ofDeclaration_comment hblank hcolon
    exact ⟨found, hfound ▸ hcontext, fun hno => absurd (h.commentBefore hp hcomment) hno,
      fun _ => hhead⟩

/-- Two declarations, the first with a comment before it. -/
def commented : Text := "a\x7b/* c */ b: d;\n e: f\x7d".toList

/-- The first declaration of `commented`. -/
def commentedFirst : Declaration := ⟨"b", "d", [], ⟨10, 11⟩, ⟨13, 14⟩, ⟨10, 14⟩⟩

/-- The second declaration of `commented`. -/
def commentedSecond : Declaration := ⟨"e", "f", [], ⟨17, 18⟩, ⟨20, 21⟩, ⟨17, 21⟩⟩

/-- At the second value its declaration is found. -/
theorem commented_at_second :
    commentedSecond ∈ (Sheet.ofText commented).declarations ∧ commented.isBoundary 21 = true ∧
      commentedSecond.valueSpan.touches 21 = true ∧
      completionContext commented 21 = .ok (.value commentedSecond.name) ∧
      ∃ name, completionContext commented 21 = .ok (.value name) ∧
        (¬ commented.CommentBefore commentedSecond.span.start → name = commentedSecond.name) ∧
        (commented.CommentBefore commentedSecond.span.start → name.toList.head? = some '/') :=
  ⟨by decide +kernel, by decide, by decide, by decide +kernel,
    completionContext_at_value (by decide +kernel) (by decide) (by decide)⟩

/-- At the first value, the comment is taken for a part of the name. -/
theorem commented_at_first :
    ¬ ∀ (text : Text), ∀ d ∈ (Sheet.ofText text).declarations, ∀ o, text.isBoundary o = true →
      d.valueSpan.touches o = true → completionContext text o = .ok (.value d.name) := by
  intro h
  have hfound : completionContext commented 13 = .ok (.value "/* c */ b") := by decide +kernel
  have hname := h commented commentedFirst (by decide +kernel) 13 (by decide) (by decide)
  rw [hfound] at hname
  exact absurd hname (by decide)

end StyleServer
