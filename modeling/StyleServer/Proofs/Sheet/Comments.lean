/-
  Comments and what is read.

  A text is read twice, as it is and with blanks for its comments, and the two readings go
  side by side.  Comments count where selectors, names or an import are cut from the text with
  the comments in it, and there alone.

  * `Declaration.head_blanked`: a declaration keeps its name, unless a comment begins in it.
  * `Rule.SameHead`: what stays the same of a rule when blanks stand for comments.
  * `Clause.sameClauses_blanked`: clauses do the same with blanks for their comments.
  * `Text.commentFree_of_in`: no comment begins in what stands in both texts at one place.
  * `Sheet.parse_withBlanks`: so the tokens, the blocks and the extent of the rules are the same;
    and so is each clause of selectors, each name and each import in which no comment begins.
  * `Sheet.selectors_in_comment`: others are not.
-/
import StyleServer.Proofs.Piece.Blanked
import StyleServer.Proofs.Sheet.CommentSpans
import StyleServer.Proofs.Sheet.Comparison
import StyleServer.Proofs.Sheet.Concat

namespace StyleServer

/-! ## Clauses with blanks for comments -/

namespace Piece

theorem isText_blanked {p : Piece} (h : p.isText = false) : ∀ q ∈ p.blanked, q.isText = false := by
  intro q hq
  rcases mem_blanked hq with rfl | ⟨c, -, rfl⟩
  · exact h
  · rfl

theorem unmarked_blanked {ps : List Piece} (h : Unmarked ps) : Unmarked (ps.flatMap blanked) := by
  intro q hq
  obtain ⟨p, hp, hq⟩ := List.mem_flatMap.1 hq
  rcases mem_blanked hq with rfl | ⟨c, -, rfl⟩
  · exact h q hp
  · rfl

end Piece

namespace Clause

theorem Body.blanked {ps lead body gap : List Piece} (h : Body ps lead body gap) :
    Body (ps.flatMap Piece.blanked) (lead.flatMap Piece.blanked) (body.flatMap Piece.blanked)
      (gap.flatMap Piece.blanked) := by
  have hblank : ∀ {qs : List Piece}, (∀ p ∈ qs, p.isText = false) →
      ∀ q ∈ qs.flatMap Piece.blanked, q.isText = false := by
    intro qs hqs q hq
    obtain ⟨p, hp, hq⟩ := List.mem_flatMap.1 hq
    exact Piece.isText_blanked (hqs p hp) q hq
  obtain ⟨p, rest, hfirst, hp⟩ := h.first
  obtain ⟨init, q, hlast, hq⟩ := h.last
  refine ⟨?_, hblank h.lead_blank, ⟨p, rest.flatMap Piece.blanked, ?_, hp⟩,
    ⟨init.flatMap Piece.blanked, q, ?_, hq⟩, hblank h.gap_blank⟩
  · rw [h.eq, List.flatMap_append, List.flatMap_append]
  · rw [hfirst, List.flatMap_cons, Piece.blanked_of_text hp]
    rfl
  · rw [hlast, List.flatMap_append, List.flatMap_singleton, Piece.blanked_of_text hq]

theorem Body.start_blanked {ps lead body gap : List Piece} (h : Body ps lead body gap)
    (offset : Nat) : bodyOf? offset (ps.flatMap Piece.blanked) =
      some ⟨offset + Text.byteLength (Piece.allChars lead),
        Piece.allChars (body.flatMap Piece.blanked)⟩ := by
  rw [h.blanked.bodyOf?_eq, Piece.byteLength_blanked]

theorem bodyOf?_blanked_of_blank (offset : Nat) {ps : List Piece}
    (h : ∀ p ∈ ps, p.isText = false) : bodyOf? offset (ps.flatMap Piece.blanked) = none := by
  refine bodyOf?_of_blank offset fun q hq => ?_
  obtain ⟨p, hp, hq⟩ := List.mem_flatMap.1 hq
  exact Piece.isText_blanked (h p hp) q hq

/-- A group has a body or no text. -/
theorem body_or_blank (ps : List Piece) :
    (∃ lead body gap, Body ps lead body gap) ∨ ∀ p ∈ ps, p.isText = false := by
  by_cases ht : ∃ p ∈ ps, p.isText = true
  · exact Or.inl (exists_body ht)
  · exact Or.inr fun p hp => by simpa using fun htp => ht ⟨p, hp, htp⟩

theorem stop_blanked (offset : Nat) (group : List Piece) (m : Mark) :
    (ofGroup offset (group.flatMap Piece.blanked) m).stop = (ofGroup offset group m).stop := by
  simp only [stop, ofGroup, Piece.byteLength_blanked]

theorem start_blanked (offset : Nat) (group : List Piece) (m : Mark) :
    (ofGroup offset (group.flatMap Piece.blanked) m).start = (ofGroup offset group m).start := by
  rcases body_or_blank group with ⟨lead, body, gap, h⟩ | h
  · simp only [start, ofGroup, h.bodyOf?_eq, h.start_blanked, Option.map_some, Option.getD_some]
  · simp only [start, ofGroup, bodyOf?_of_blank offset h, bodyOf?_blanked_of_blank offset h,
      Piece.byteLength_blanked]

end Clause

/-! ## Names -/

/-- The name of a declaration and where it stands. -/
def Declaration.head (d : Declaration) : String × Span := (d.name, d.nameSpan)

namespace Piece

theorem flatMap_blanked {ps : List Piece} (h : ∀ p ∈ ps, p.isComment = false) :
    ps.flatMap blanked = ps := by
  induction ps with
  | nil => rfl
  | cons p ps ih =>
    rw [List.flatMap_cons, blanked_of_not_comment (h p List.mem_cons_self),
      ih fun q hq => h q (List.mem_cons_of_mem p hq)]
    rfl

/-- What stands for a comment begins with a blank. -/
theorem head?_blanked {p : Piece} (hp : p.isComment = true) (hne : p.chars ≠ []) (after : Text) :
    ∃ c, isAsciiBlank c = true ∧ (allChars p.blanked ++ after).head? = some c := by
  cases hb : p.blanked with
  | nil =>
    have hsize := size_blanked p
    rw [hb] at hsize
    exact absurd hsize.symm (Nat.ne_of_gt (Text.byteLength_pos hne))
  | cons q qs =>
    obtain ⟨c, hc, rfl⟩ := blank_of_mem_blanked hp (hb ▸ List.mem_cons_self)
    exact ⟨c, hc, rfl⟩

theorem mem_allChars {c : Char} {ps : List Piece} : c ∈ allChars ps ↔ ∃ p ∈ ps, c ∈ p.chars := by
  simp [allChars]

/-- Blanks for comments bring no colon. -/
theorem colon_mem_of_blanked {ps : List Piece} (h : ':' ∈ allChars (ps.flatMap blanked)) :
    ':' ∈ allChars ps := by
  obtain ⟨q, hq, hcolon⟩ := mem_allChars.1 h
  obtain ⟨p, hp, hq⟩ := List.mem_flatMap.1 hq
  rcases mem_blanked hq with rfl | ⟨c, hc, rfl⟩
  · exact mem_allChars.2 ⟨q, hp, hcolon⟩
  · obtain rfl := List.mem_singleton.1 hcolon
    exact absurd hc (by decide)

/-- Either a colon stands before the first comment, or there is no comment, or it stands before
    all colons. -/
theorem colon_cases (ps : List Piece) :
    (∃ before after after', allChars ps = before ++ ':' :: after ∧
        allChars (ps.flatMap blanked) = before ++ ':' :: after' ∧ ∀ c ∈ before, c ≠ ':') ∨
      ps.flatMap blanked = ps ∨
      ∃ front p rest, ps = front ++ p :: rest ∧ p.isComment = true ∧ ':' ∉ allChars front := by
  induction ps with
  | nil => exact .inr (.inl rfl)
  | cons p ps ih =>
    by_cases hp : p.isComment = true
    · exact .inr (.inr ⟨[], p, ps, rfl, hp, List.not_mem_nil⟩)
    have hblanked : (p :: ps).flatMap blanked = p :: ps.flatMap blanked := by
      rw [List.flatMap_cons, blanked_of_not_comment (by simpa using hp)]
      rfl
    rw [hblanked, allChars_cons, allChars_cons]
    by_cases hcolon : ':' ∈ p.chars
    · obtain ⟨before, after, hchars, hbefore⟩ := List.eq_append_cons_of_mem hcolon
      refine .inl ⟨before, after ++ allChars ps, after ++ allChars (ps.flatMap blanked),
        by simp [hchars], by simp [hchars], ?_⟩
      rintro c hc rfl
      exact hbefore hc
    · have hchars : ∀ c ∈ p.chars, c ≠ ':' := fun c hc he => hcolon (he ▸ hc)
      rcases ih with ⟨before, after, after', heq, heq', hbefore⟩ | heq |
        ⟨front, q, rest, rfl, hq, hfront⟩
      · exact .inl ⟨p.chars ++ before, after, after', by simp [heq], by simp [heq'],
          List.forall_mem_append.2 ⟨hchars, hbefore⟩⟩
      · exact .inr (.inl (by rw [heq]))
      · exact .inr (.inr ⟨p :: front, q, rest, rfl, hq, by simp [hcolon, hfront]⟩)

end Piece

namespace Declaration

/-- Behind its colon, a declaration does not change its name. -/
theorem head_ofFragment? {before : Text} (h : ∀ c ∈ before, c ≠ ':') (start : Nat)
    (after after' : Text) :
    (ofFragment? ⟨start, before ++ ':' :: after⟩).map head =
      (ofFragment? ⟨start, before ++ ':' :: after'⟩).map head := by
  simp only [ofFragment?, Fragment.cutAt_sep h]
  split
  · rfl
  · rfl

/-- What stands before the colon and is not blank is covered by the name. -/
theorem ofFragment?_covers {front rest : Text} {c : Char} (hfront : ':' ∉ front ++ [c])
    (hblank : isBlank c = false) (hcolon : ':' ∈ rest) (start : Nat) :
    ∃ d, ofFragment? ⟨start, front ++ c :: rest⟩ = some d ∧
      d.nameSpan.covers (start + front.byteLength) = true := by
  obtain ⟨inside, after, rfl, hinside⟩ := List.eq_append_cons_of_mem hcolon
  have hbefore : ∀ x ∈ front ++ [c] ++ inside, x ≠ ':' := by
    rintro x hx rfl
    exact (List.mem_append.1 hx).elim hfront hinside
  have hcovers := Fragment.trim_covers (f := ⟨start, front ++ [c] ++ inside⟩) (a := front)
    (b := inside) (by simp) hblank
  have hne : (Fragment.trim ⟨start, front ++ [c] ++ inside⟩).chars.isEmpty = false := by
    rw [Bool.eq_false_iff, ne_eq, List.isEmpty_iff]
    intro hnil
    rw [Span.covers_iff, Fragment.span, Fragment.stop, hnil] at hcovers
    exact absurd (Nat.lt_of_le_of_lt hcovers.1 hcovers.2) (Nat.lt_irrefl _)
  have hchars : front ++ c :: (inside ++ ':' :: after) =
      (front ++ [c] ++ inside) ++ ':' :: after := by simp
  rw [hchars, ofFragment?, Fragment.cutAt_sep hbefore]
  simp only [hne]
  exact ⟨_, rfl, hcovers⟩

variable {text : Text}

/-- **A declaration keeps its name** when blanks stand for the comments of its statement, unless
    one of them begins in the name. -/
theorem head_blanked {front ps behind : List Piece} (h : text.pieces = front ++ (ps ++ behind))
    (hfree : ∀ d ∈ ofFragment? ⟨Text.byteLength (Piece.allChars front), Piece.allChars ps⟩,
      text.commentFree d.nameSpan = true) :
    (ofFragment? ⟨Text.byteLength (Piece.allChars front),
        Piece.allChars (ps.flatMap Piece.blanked)⟩).map head =
      (ofFragment? ⟨Text.byteLength (Piece.allChars front), Piece.allChars ps⟩).map head := by
  rcases Piece.colon_cases ps with ⟨before, after, after', heq, heq', hbefore⟩ | heq |
    ⟨init, p, rest, rfl, hp, hinit⟩
  · rw [heq, heq']
    exact head_ofFragment? hbefore _ after' after
  · rw [heq]
  · have hsplit : text.pieces = (front ++ init) ++ p :: (rest ++ behind) := by rw [h]; simp
    obtain ⟨inside, hchars⟩ := Text.comment_chars hsplit hp
    by_cases hcolon : ':' ∈ Piece.allChars (init ++ p :: rest)
    · -- The comment would begin in the name.
      have hslash : ':' ∉ Piece.allChars init ++ ['/'] := by simp [hinit]
      have hrest : ':' ∈ inside ++ Piece.allChars rest := by simpa [hinit, hchars] using hcolon
      obtain ⟨d, hd, hcovers⟩ := ofFragment?_covers hslash (by decide) hrest
        (Text.byteLength (Piece.allChars front))
      have heq : Piece.allChars (init ++ p :: rest) =
          Piece.allChars init ++ '/' :: (inside ++ Piece.allChars rest) := by simp [hchars]
      have hout := Text.commentFree_iff.1 (hfree d (by rw [heq]; exact hd)) _ _ _ hsplit hp
      rw [Piece.allChars_append, Text.byteLength_append, hcovers] at hout
      cases hout
    · have hnone : ∀ start {cs : Text}, ':' ∉ cs → ofFragment? ⟨start, cs⟩ = none := by
        intro start cs hcs
        rw [ofFragment?, Fragment.cutAt_eq_none hcs]
      rw [hnone _ hcolon, hnone _ fun hmem => hcolon (Piece.colon_mem_of_blanked hmem)]

end Declaration

/-! ## Rules -/

/-- Where the clause of selectors stands. -/
def Rule.clauseSpan (r : Rule) : Span :=
  ⟨r.span.start, r.span.start + Text.byteLength r.selectorText.toList⟩

/-- A rule of a text, and the rule in its place when blanks stand for comments. -/
structure Rule.SameHead (text : Text) (r r' : Rule) : Prop where
  span_eq : r'.span = r.span
  closed_eq : r'.closed = r.closed
  /-- Without a comment among them, the selectors are the same. -/
  selectors : text.commentFree r.clauseSpan = true → r'.selectors = r.selectors
  /-- Names in which no comment begins stay where they are, in order. -/
  kept : ((r.declarations.filter fun d => text.commentFree d.nameSpan).map Declaration.head).Sublist
    (r'.declarations.map Declaration.head)
  /-- When no comment begins in any of them, there are no others. -/
  names : (∀ d ∈ r.declarations, text.commentFree d.nameSpan = true) →
    r'.declarations.map Declaration.head = r.declarations.map Declaration.head

namespace Rule.SameHead

variable {text : Text} {r r' : Rule}

theorem endedAt (h : r.SameHead text r') (stop : Nat) (closed : Bool) :
    (r.endedAt stop closed).SameHead text (r'.endedAt stop closed) where
  span_eq := by rw [Rule.endedAt, Rule.endedAt, h.span_eq]
  closed_eq := rfl
  selectors := h.selectors
  kept := h.kept
  names := h.names

theorem map_toList (o : Option Declaration) :
    (o.map Declaration.head).toList = o.toList.map Declaration.head := by
  cases o <;> rfl

/-- A statement adds the same, as far as no comment begins in its name. -/
theorem declare (h : r.SameHead text r') {statement statement' : Option Fragment}
    (hs : (∀ d ∈ statement.bind Declaration.ofFragment?, text.commentFree d.nameSpan = true) →
      (statement'.bind Declaration.ofFragment?).map Declaration.head =
        (statement.bind Declaration.ofFragment?).map Declaration.head) :
    (r.declare statement).SameHead text (r'.declare statement') where
  span_eq := h.span_eq
  closed_eq := h.closed_eq
  selectors := h.selectors
  kept := by
    simp only [Rule.declare, List.filter_append, List.map_append]
    refine h.kept.append ?_
    cases hd : statement.bind Declaration.ofFragment? with
    | none => exact List.nil_sublist _
    | some d =>
      cases hfree : text.commentFree d.nameSpan with
      | false => simp [hfree]
      | true =>
        have hsame := hs fun d' hd' => Option.some.inj (hd.symm.trans hd') ▸ hfree
        rw [← map_toList, hsame, hd]
        simp [hfree]
  names := by
    intro hfree
    rw [Rule.declare, Rule.declare, List.map_append, List.map_append, ← map_toList, ← map_toList,
      h.names fun d hd => hfree d (List.mem_append_left _ hd),
      hs fun d hd => hfree d (List.mem_append_right _ (Option.mem_toList.2 hd))]

end Rule.SameHead

/-! ## Clauses with and without their comments -/

/-- What is compared of a text and of the text with blanks for its comments: heads of rules, and
    imports in which no comment begins. -/
def Comparison.heads (text : Text) : Comparison where
  rule := Rule.SameHead text
  directive i i' := (i.filter fun i => text.commentFree i.span) =
    i'.filter fun i => text.commentFree i.span
  endedAt h stop closed := h.endedAt stop closed

namespace Clause

variable {text : Text} {front group behind : List Piece}

theorem Body.pieces_split {lead body gap : List Piece} (hb : Body group lead body gap)
    (h : text.pieces = front ++ (group ++ behind)) :
    text.pieces = (front ++ lead) ++ (body ++ (gap ++ behind)) := by
  rw [h, hb.eq]
  simp

/-- The rule that a body opens keeps its selectors, unless a comment begins in the body. -/
theorem opened_blanked {body : List Piece} (h : text.pieces = front ++ (body ++ behind))
    (stop : Nat) :
    (Rule.opened ⟨Text.byteLength (Piece.allChars front), Piece.allChars body⟩ stop).SameHead text
      (Rule.opened ⟨Text.byteLength (Piece.allChars front),
        Piece.allChars (body.flatMap Piece.blanked)⟩ stop) where
  span_eq := rfl
  closed_eq := rfl
  selectors := by
    intro hfree
    have hbody : ∀ p ∈ body, p.isComment = false := by
      refine Text.isComment_eq_false h (Nat.le_refl _) ?_ hfree
      simp [Rule.opened, Rule.clauseSpan, Fragment.text]
    rw [Piece.flatMap_blanked hbody]
  kept := by simp [Rule.opened]
  names _ := rfl

theorem owner_blanked (h : text.pieces = front ++ (group ++ behind)) (m : Mark) :
    Option.Rel (Rule.SameHead text)
      (Level.ownerOf (ofGroup (Text.byteLength (Piece.allChars front)) group m))
      (Level.ownerOf (ofGroup (Text.byteLength (Piece.allChars front))
        (group.flatMap Piece.blanked) m)) := by
  rcases body_or_blank group with ⟨lead, body, gap, hb⟩ | hblank
  · have hbody := hb.pieces_split h
    obtain ⟨p, rest, hfirst, hp⟩ := hb.first
    have hne : p.chars ≠ [] :=
      Text.chars_ne_nil_of_mem_pieces text p (by rw [hbody, hfirst]; simp)
    have hhead : (Piece.allChars (body.flatMap Piece.blanked)).head? =
        (Piece.allChars body).head? := by
      obtain ⟨c, cs, hchars⟩ := List.exists_cons_of_ne_nil hne
      rw [hfirst, List.flatMap_cons, Piece.blanked_of_text hp]
      simp [hchars]
    have hbody₁ : (ofGroup (Text.byteLength (Piece.allChars front)) group m).body = _ :=
      hb.bodyOf?_eq _
    have hbody₂ : (ofGroup (Text.byteLength (Piece.allChars front))
        (group.flatMap Piece.blanked) m).body = _ := hb.start_blanked _
    rw [Level.ownerOf, Level.ownerOf, stop_blanked, hbody₁, hbody₂]
    simp only [hhead]
    split
    · exact .none
    · have hrule := opened_blanked hbody
        (ofGroup (Text.byteLength (Piece.allChars front)) group m).stop
      rw [Piece.allChars_append, Text.byteLength_append] at hrule
      exact .some hrule
  · simp only [Level.ownerOf, ofGroup, bodyOf?_of_blank _ hblank, bodyOf?_blanked_of_blank _ hblank]
    exact .none

theorem declare_blanked (h : text.pieces = front ++ (group ++ behind)) :
    (Comparison.heads text).SameStatement
      (bodyOf? (Text.byteLength (Piece.allChars front)) group)
      (bodyOf? (Text.byteLength (Piece.allChars front)) (group.flatMap Piece.blanked)) := by
  refine fun r r' hr => hr.declare fun hfree => ?_
  rcases body_or_blank group with ⟨lead, body, gap, hb⟩ | hblank
  · have hhead := Declaration.head_blanked (hb.pieces_split h)
    rw [Piece.allChars_append, Text.byteLength_append] at hhead
    rw [hb.bodyOf?_eq] at hfree ⊢
    rw [hb.start_blanked]
    exact hhead hfree
  · rw [bodyOf?_of_blank _ hblank, bodyOf?_blanked_of_blank _ hblank]

/-- Two statements with one extent are read as the same import or as none, when they are the
    same unless a comment begins in them. -/
theorem directive_of_span {s s' : Fragment} (hspan : s'.span = s.span)
    (h : text.commentFree s.span = true → s' = s) :
    (Comparison.heads text).directive (Import.ofFragment? s) (Import.ofFragment? s') := by
  cases hfree : text.commentFree s.span with
  | true => rw [h hfree]; rfl
  | false =>
    have hnone : ∀ {t : Fragment}, t.span = s.span →
        (Import.ofFragment? t).filter (fun i => text.commentFree i.span) = none := by
      intro t ht
      rw [Option.filter_eq_none_iff]
      intro i hi
      rw [Import.ofFragment?_span hi, ht, hfree]
      decide
    exact (hnone rfl).trans (hnone hspan).symm

theorem directive_blanked {m : Mark} (h : text.pieces = front ++ (group ++ .mark m :: behind)) :
    (Comparison.heads text).directive
      ((ofGroup (Text.byteLength (Piece.allChars front)) group m).statement.bind
        Import.ofFragment?)
      ((ofGroup (Text.byteLength (Piece.allChars front)) (group.flatMap Piece.blanked)
        m).statement.bind Import.ofFragment?) := by
  rcases body_or_blank group with ⟨lead, body, gap, hb⟩ | hblank
  · have hrest := hb.pieces_split h
    rw [← List.append_assoc body] at hrest
    have hstatement : (ofGroup (Text.byteLength (Piece.allChars front)) group m).statement =
        some ⟨Text.byteLength (Piece.allChars (front ++ lead)),
          Piece.allChars (body ++ gap) ++ [m.char]⟩ := by
      simp [statement, ofGroup, hb.bodyOf?_eq, hb.gapPieces_eq]
    have hblanked : (ofGroup (Text.byteLength (Piece.allChars front))
        (group.flatMap Piece.blanked) m).statement =
        some ⟨Text.byteLength (Piece.allChars (front ++ lead)),
          Piece.allChars ((body ++ gap).flatMap Piece.blanked) ++ [m.char]⟩ := by
      simp [statement, ofGroup, hb.start_blanked, hb.blanked.gapPieces_eq]
    rw [hstatement, hblanked]
    refine directive_of_span ?_ fun hfree => ?_
    · simp only [Fragment.span, Fragment.stop, Text.byteLength_append, Piece.byteLength_blanked]
    · rw [Piece.flatMap_blanked (Text.isComment_eq_false hrest (Nat.le_refl _) ?_ hfree)]
      simp only [Fragment.span, Fragment.stop, Piece.allChars_append, Text.byteLength_append]
      omega
  · simp only [statement, ofGroup, bodyOf?_of_blank _ hblank, bodyOf?_blanked_of_blank _ hblank,
      Option.map_none, Option.bind_none]
    rfl

theorem sameClause_blanked {m : Mark} (h : text.pieces = front ++ (group ++ .mark m :: behind)) :
    (Comparison.heads text).SameClause (ofGroup (Text.byteLength (Piece.allChars front)) group m)
      (ofGroup (Text.byteLength (Piece.allChars front)) (group.flatMap Piece.blanked) m) where
  mark_eq := rfl
  start_eq := (start_blanked _ group m).symm
  stop_eq := (stop_blanked _ group m).symm
  directive := directive_blanked h
  owner := owner_blanked h m
  declare := declare_blanked h

/-- **The clauses of both texts** do the same, one by one, and so do the bodies behind them. -/
theorem sameClauses_blanked {ps : List Piece} (h : text.pieces = front ++ ps) :
    List.Forall₂ (Comparison.heads text).SameClause
        (ofPieces (Text.byteLength (Piece.allChars front)) ps).1
        (ofPieces (Text.byteLength (Piece.allChars front)) (ps.flatMap Piece.blanked)).1 ∧
      (Comparison.heads text).SameStatement
        (ofPieces (Text.byteLength (Piece.allChars front)) ps).2
        (ofPieces (Text.byteLength (Piece.allChars front)) (ps.flatMap Piece.blanked)).2 := by
  induction ps using Piece.marks_induction generalizing front with
  | last ps hu =>
    rw [ofPieces_unmarked _ hu, ofPieces_unmarked _ (Piece.unmarked_blanked hu)]
    have hlast : text.pieces = front ++ (ps ++ []) := by rw [h, List.append_nil]
    exact ⟨.nil, declare_blanked hlast⟩
  | mark group m ps hu ih =>
    have hpieces : (group ++ .mark m :: ps).flatMap Piece.blanked =
        group.flatMap Piece.blanked ++ .mark m :: ps.flatMap Piece.blanked := by
      rw [List.flatMap_append, List.flatMap_cons]
      rfl
    have hstop : (ofGroup (Text.byteLength (Piece.allChars front)) group m).stop =
        Text.byteLength (Piece.allChars (front ++ (group ++ [.mark m]))) := by
      have hsize := size_mark (Text.byteLength (Piece.allChars front)) group m []
      rw [Piece.allChars_append, Text.byteLength_append, hsize]
      rfl
    have hrest : text.pieces = (front ++ (group ++ [.mark m])) ++ ps := by rw [h]; simp
    obtain ⟨hclauses, hlast⟩ := ih hrest
    rw [hpieces, ofPieces_mark _ hu, ofPieces_mark _ (Piece.unmarked_blanked hu), stop_blanked,
      hstop]
    exact ⟨.cons (sameClause_blanked h) hclauses, hlast⟩

end Clause

/-! ## What stands in both texts -/

/-- The characters of a fragment from an offset in it on. -/
theorem Fragment.In.exists_rest {f : Fragment} {text before rest : Text} (h : f.In text)
    (heq : text = before ++ rest) (hcovers : f.span.covers before.byteLength = true) :
    ∃ a b, f.chars = a ++ b ∧ f.start + Text.byteLength a = before.byteLength ∧
      b.head? = rest.head? := by
  obtain ⟨front, after, htext, hfront⟩ := h
  obtain ⟨hlo, hhi⟩ := Span.covers_iff.1 hcovers
  rw [htext, List.append_assoc] at heq
  obtain ⟨a, rfl, hrest⟩ := Text.append_split heq (hfront ▸ hlo)
  rw [Text.byteLength_append, hfront] at hhi ⊢
  obtain ⟨b, hchars, hrest⟩ := Text.append_split hrest.symm
    (Nat.le_of_lt (Nat.lt_of_add_lt_add_left hhi))
  have hb : b ≠ [] := by
    rintro rfl
    rw [Fragment.span, Fragment.stop, hchars, List.append_nil] at hhi
    exact Nat.lt_irrefl _ hhi
  refine ⟨a, b, hchars, rfl, ?_⟩
  obtain ⟨c, cs, rfl⟩ := List.exists_cons_of_ne_nil hb
  rw [hrest]
  rfl

/-- **No comment begins in what stands in both texts at one place:** it begins with a slash, and
    there stands a blank for it. -/
theorem Text.commentFree_of_in {text : Text} {f : Fragment} (h : f.In text)
    (h' : f.In text.blanked) : text.commentFree f.span = true := by
  refine Text.commentFree_iff.2 fun before p behind hpieces hp => ?_
  rw [Bool.eq_false_iff]
  intro hcovers
  obtain ⟨inside, hchars⟩ := Text.comment_chars hpieces hp
  have htext : text = Piece.allChars before ++ '/' :: (inside ++ Piece.allChars behind) := by
    rw [← Text.allChars_pieces text, hpieces, Piece.allChars_append, Piece.allChars_cons, hchars]
    rfl
  have hblanked : text.blanked = Piece.allChars (before.flatMap Piece.blanked) ++
      (Piece.allChars p.blanked ++ Piece.allChars (behind.flatMap Piece.blanked)) := by
    rw [Text.blanked, hpieces, List.flatMap_append, List.flatMap_cons, Piece.allChars_append,
      Piece.allChars_append]
  obtain ⟨a, b, hab, hstart, hslash⟩ := h.exists_rest htext hcovers
  rw [← Piece.byteLength_blanked] at hcovers
  obtain ⟨a', b', hab', hstart', hblank⟩ := h'.exists_rest hblanked hcovers
  rw [Piece.byteLength_blanked] at hstart'
  obtain ⟨rfl, rfl⟩ := Text.append_inj (hab.symm.trans hab') (by omega)
  obtain ⟨c, hc, hhead⟩ := Piece.head?_blanked hp (hchars ▸ List.cons_ne_nil _ _)
    (Piece.allChars (behind.flatMap Piece.blanked))
  obtain rfl := Option.some.inj (hhead.symm.trans (hblank.symm.trans hslash))
  exact absurd hc (by decide)

/-! ## Sheets -/

/-- What is read of a text and of the text with blanks for its comments. -/
theorem Text.items_blanked (text : Text) :
    (Comparison.heads text).SameItems text.items text.blanked.items := by
  have hsize : text.blanked.byteLength = text.byteLength := by
    rw [blanked, Piece.byteLength_blanked, allChars_pieces]
  have hpieces : text.pieces = [] ++ text.pieces := rfl
  obtain ⟨hclauses, hlast⟩ := Clause.sameClauses_blanked hpieces
  rw [items, items, hsize, Clause.clauses_eq_ofPieces, Clause.clauses_eq_ofPieces, pieces_blanked]
  exact Comparison.itemsFrom_same hclauses hlast .outside text.byteLength

/-- A style sheet with blanks for its comments. -/
def withBlanks (text : String) : String := String.ofList (Text.blanked text.toList)

namespace Sheet

/-- The name of a declaration stands in the text. -/
theorem declaration_head {text : Text} {d : Declaration} (h : d ∈ (ofText text).declarations) :
    ∃ name : Fragment, name.In text ∧ d.head = (name.text, name.span) := by
  obtain ⟨f, hbody, hd⟩ := declaration_origin h
  obtain ⟨before, behind, hcut, -, rfl⟩ := Declaration.ofFragment?_parts hd
  have hname := (Fragment.trim_partOf before).trans (Fragment.cutAt_eq_some hcut).1
  exact ⟨before.trim, hname.in_text hbody.in_text, rfl⟩

/-- **Comments leave the structure of a sheet as it is:** the tokens, the nested blocks and the
    extent of the rules are those of the text with blanks for its comments.  A rule keeps its
    selectors when no comment begins among them, and a name is kept just when no comment begins
    in it.  Imports in which no comment begins are the same. -/
theorem parse_withBlanks (text : String) :
    tokens (withBlanks text).toList = tokens text.toList ∧
      (parse (withBlanks text)).nestedBlocks = (parse text).nestedBlocks ∧
      List.Forall₂ (Rule.SameHead text.toList) (parse text).rules (parse (withBlanks text)).rules ∧
      (∀ d ∈ (parse text).declarations, ∀ d' ∈ (parse (withBlanks text)).declarations,
        d'.head = d.head → Text.commentFree text.toList d.nameSpan = true) ∧
      ((parse (withBlanks text)).imports.filter fun i => Text.commentFree text.toList i.span) =
        (parse text).imports.filter fun i => Text.commentFree text.toList i.span := by
  have hitems := Text.items_blanked text.toList
  simp only [withBlanks, parse, String.toList_ofList]
  refine ⟨tokens_blanked _, hitems.nested_eq.symm, hitems.forall₂_rules, ?_,
    (hitems.filter_imports fun _ _ h => h).symm⟩
  intro d hd d' hd' hhead
  obtain ⟨⟨start, chars⟩, hin, hname⟩ := declaration_head hd
  obtain ⟨⟨start', chars'⟩, hin', hname'⟩ := declaration_head hd'
  obtain ⟨htext, hspan⟩ := Prod.mk.inj (hname'.symm.trans (hhead.trans hname))
  obtain rfl : chars' = chars := String.ofList_injective htext
  obtain rfl : start' = start := congrArg Span.start hspan
  rw [show d.nameSpan = _ from congrArg Prod.snd hname]
  exact Text.commentFree_of_in hin hin'

/-- A comment in the first clause and in a name: the second rule keeps its selector. -/
theorem parse_withBlanks_values :
    ∃ (h : 1 < (parse ".a/*,*/.b\x7b\x7d.c\x7bd/**/:e;f:g\x7d").rules.length)
      (h' : 1 < (parse (withBlanks ".a/*,*/.b\x7b\x7d.c\x7bd/**/:e;f:g\x7d")).rules.length),
      Text.commentFree ".a/*,*/.b\x7b\x7d.c\x7bd/**/:e;f:g\x7d".toList
          ((parse ".a/*,*/.b\x7b\x7d.c\x7bd/**/:e;f:g\x7d").rules.get ⟨1, h⟩).clauseSpan = true ∧
        ((parse (withBlanks ".a/*,*/.b\x7b\x7d.c\x7bd/**/:e;f:g\x7d")).rules.get
            ⟨1, h'⟩).selectors =
          ((parse ".a/*,*/.b\x7b\x7d.c\x7bd/**/:e;f:g\x7d").rules.get ⟨1, h⟩).selectors := by
  refine ⟨by decide +kernel, by decide +kernel, ?_⟩
  have hfree : Text.commentFree ".a/*,*/.b\x7b\x7d.c\x7bd/**/:e;f:g\x7d".toList
      ((parse ".a/*,*/.b\x7b\x7d.c\x7bd/**/:e;f:g\x7d").rules.get
        ⟨1, by decide +kernel⟩).clauseSpan = true := by
    decide +kernel
  exact ⟨hfree, ((parse_withBlanks _).2.2.1.get _ _).selectors hfree⟩

/-- A comment between selectors is read as selectors. -/
theorem selectors_in_comment :
    ((parse ".a /*,.b*/ ,.c\x7b\x7d").selectors.map fun s => (s.name, s.span)) =
        [("a", ⟨0, 5⟩), ("b", ⟨6, 10⟩), ("c", ⟨12, 14⟩)] ∧
      ((parse (withBlanks ".a /*,.b*/ ,.c\x7b\x7d")).selectors.map fun s => (s.name, s.span)) =
        [("a", ⟨0, 2⟩), ("c", ⟨12, 14⟩)] := by
  decide +kernel

end Sheet

end StyleServer
