/-
  Where the items of a sheet come from.

  Reading takes selectors and declarations from the bodies of clauses, and imports from
  the statements that clauses make.

  * `Text.HasBody`: a fragment is a body of the text, with the pieces that it is made of.
  * `Level.step_origin`, `itemsFrom_origin`: what a step and a run take over.
  * `Sheet.selector_origin`, `Sheet.declaration_origin`, `Sheet.import_origin`: so each of
    these stands in the text.
-/
import StyleServer.Proofs.Sheet.Layout

namespace StyleServer

/-! ## Bodies of a text -/

/-- The fragment is made of the pieces `body`, which stand between `before` and `after`; the
    first of them and the last are strings or words, and none is a mark. -/
structure Text.BodyAt (text : Text) (f : Fragment) (before body after : List Piece) : Prop where
  pieces_eq : text.pieces = before ++ (body ++ after)
  fragment_eq : f = ⟨Text.byteLength (Piece.allChars before), Piece.allChars body⟩
  unmarked : Piece.Unmarked body
  first : ∃ p rest, body = p :: rest ∧ p.isText = true
  last : ∃ init p, body = init ++ [p] ∧ p.isText = true

/-- The fragment is the body of a clause, or stands behind the last mark. -/
def Text.HasBody (text : Text) (f : Fragment) : Prop :=
  ∃ before body after, text.BodyAt f before body after

theorem Text.BodyAt.text_eq {text : Text} {f : Fragment} {before body after : List Piece}
    (h : text.BodyAt f before body after) :
    text = Piece.allChars before ++ (Piece.allChars body ++ Piece.allChars after) := by
  rw [← allChars_pieces text, h.pieces_eq, Piece.allChars_append, Piece.allChars_append]

/-- A body stands in its text. -/
theorem Text.HasBody.in_text {text : Text} {f : Fragment} (h : text.HasBody f) : f.In text := by
  obtain ⟨before, body, after, h⟩ := h
  refine ⟨Piece.allChars before, Piece.allChars after, ?_, ?_⟩
  · rw [h.fragment_eq, List.append_assoc]
    exact h.text_eq
  · rw [h.fragment_eq]

namespace Clause

/-- The body of a group of pieces is a body of the text. -/
theorem hasBody_of_group {text : Text} {before group after : List Piece} {f : Fragment}
    (h : text.pieces = before ++ (group ++ after)) (hu : Piece.Unmarked group)
    (hf : bodyOf? (Text.byteLength (Piece.allChars before)) group = some f) : text.HasBody f := by
  obtain ⟨lead, body, gap, hb, rfl⟩ := body_of_bodyOf? hf
  refine ⟨before ++ lead, body, gap ++ after, ?_, ?_, fun p hp => hu p ?_, hb.first, hb.last⟩
  · rw [h, hb.eq]
    simp
  · rw [Piece.allChars_append, Text.byteLength_append]
  · rw [hb.eq]
    simp [hp]

/-- The group of pieces that a clause is made of. -/
theorem mem_ofPieces {offset : Nat} {ps : List Piece} {c : Clause} (h : c ∈ (ofPieces offset ps).1) :
    ∃ before group m after, ps = before ++ (group ++ .mark m :: after) ∧ Piece.Unmarked group ∧
      c = ofGroup (offset + Text.byteLength (Piece.allChars before)) group m := by
  induction ps using Piece.marks_induction generalizing offset with
  | last ps hu => simp [ofPieces_unmarked offset hu] at h
  | mark group m ps hu ih =>
    rw [ofPieces_mark offset hu] at h
    rcases List.mem_cons.1 h with rfl | h
    · exact ⟨[], group, m, ps, rfl, hu, rfl⟩
    · obtain ⟨before, group', m', after, rfl, hu', rfl⟩ := ih h
      refine ⟨group ++ .mark m :: before, group', m', after, by simp, hu', ?_⟩
      rw [size_mark]

/-- The group of pieces behind the last mark. -/
theorem last_ofPieces (offset : Nat) (ps : List Piece) :
    ∃ before group, ps = before ++ group ∧ Piece.Unmarked group ∧ (ofPieces offset ps).2 =
      bodyOf? (offset + Text.byteLength (Piece.allChars before)) group := by
  induction ps using Piece.marks_induction generalizing offset with
  | last ps hu => exact ⟨[], ps, rfl, hu, by rw [ofPieces_unmarked offset hu]; rfl⟩
  | mark group m ps hu ih =>
    obtain ⟨before, last, rfl, hlast, heq⟩ := ih (ofGroup offset group m).stop
    refine ⟨group ++ .mark m :: before, last, by simp, hlast, ?_⟩
    rw [ofPieces_mark offset hu, size_mark, ← heq]

theorem body_hasBody {text : Text} {c : Clause} (h : c ∈ text.clauses.1) {f : Fragment}
    (hf : c.body = some f) : text.HasBody f := by
  obtain ⟨before, group, m, after, heq, hu, rfl⟩ := mem_ofPieces h
  rw [Nat.zero_add] at hf
  exact hasBody_of_group heq hu hf

theorem last_hasBody {text : Text} {f : Fragment} (hf : text.clauses.2 = some f) :
    text.HasBody f := by
  obtain ⟨before, group, heq, hu, hlast⟩ := last_ofPieces 0 text.pieces
  rw [clauses_eq_ofPieces, hlast, Nat.zero_add] at hf
  have heq' : text.pieces = before ++ (group ++ []) := by rw [List.append_nil]; exact heq
  exact hasBody_of_group heq' hu hf

/-- A statement stands in its text. -/
theorem statement_in {text : Text} {c : Clause} (h : c ∈ text.clauses.1) {f : Fragment}
    (hf : c.statement = some f) : f.In text := by
  obtain ⟨before, group, m, after, heq, hu, rfl⟩ := mem_ofPieces h
  rw [Nat.zero_add] at hf
  obtain ⟨body, hbody, rfl⟩ := Option.map_eq_some_iff.1 hf
  obtain ⟨lead, bodyPieces, gap, hb, rfl⟩ := body_of_bodyOf? hbody
  have hgap : (ofGroup (Text.byteLength (Piece.allChars before)) group m).gap =
      Piece.allChars gap := congrArg Piece.allChars hb.gapPieces_eq
  refine ⟨Piece.allChars (before ++ lead), Piece.allChars after, ?_, ?_⟩
  · rw [hgap, ← Text.allChars_pieces text, heq, hb.eq]
    simp [ofGroup, Piece.chars]
  · rw [Piece.allChars_append, Text.byteLength_append]

end Clause

/-! ## Reading -/

section
variable {P Q : Fragment → Prop}

/-- The parts of a rule are read from fragments with the property `P`. -/
structure Rule.Origin (P : Fragment → Prop) (r : Rule) : Prop where
  clause : ∃ f, P f ∧ r.selectorText = f.text ∧ r.selectors = Selector.listOf f
  declarations : ∀ d ∈ r.declarations, ∃ f, P f ∧ Declaration.ofFragment? f = some d

theorem Rule.Origin.declare {r : Rule} (h : r.Origin P) {statement : Option Fragment}
    (hs : ∀ f ∈ statement, P f) : (r.declare statement).Origin P := by
  refine ⟨h.clause, fun d hd => ?_⟩
  rcases List.mem_append.1 hd with hd | hd
  · exact h.declarations d hd
  · obtain ⟨f, hf, hd⟩ := Option.bind_eq_some_iff.1 (Option.mem_toList.1 hd)
    exact ⟨f, hs f hf, hd⟩

theorem Rule.Origin.endedAt {r : Rule} (h : r.Origin P) (stop : Nat) (closed : Bool) :
    (r.endedAt stop closed).Origin P := ⟨h.clause, h.declarations⟩

/-- An item is read from fragments with the property `P`, an import from one with `Q`. -/
def SheetItem.Origin (P Q : Fragment → Prop) : SheetItem → Prop
  | rule r => r.Origin P
  | directive i => ∃ f, Q f ∧ Import.ofFragment? f = some i
  | nested _ => True

theorem Level.ownerOf_origin {c : Clause} (hb : ∀ f ∈ c.body, P f) :
    ∀ r ∈ ownerOf c, r.Origin P := by
  intro r hr
  unfold ownerOf at hr
  split at hr
  · next body hbody =>
    split at hr
    · simp at hr
    · obtain rfl := Option.some.inj hr
      exact ⟨⟨body, hb body hbody, rfl, rfl⟩, by simp [Rule.opened]⟩
  · simp at hr

/-- What a clause opens and completes comes from it, or was open before. -/
theorem Level.step_origin {level : Level} (h : ∀ r ∈ level.owner, r.Origin P) {c : Clause}
    (hb : ∀ f ∈ c.body, P f) (hs : ∀ f ∈ c.statement, Q f) :
    (∀ r ∈ (level.step c).1.owner, r.Origin P) ∧ ∀ x ∈ (level.step c).2, x.Origin P Q := by
  cases level with
  | outside =>
    cases hm : c.mark with
    | semicolon =>
      simp only [step, hm, Level.owner, Option.mem_def, reduceCtorEq, false_imp_iff, implies_true,
        true_and]
      intro x hx
      obtain ⟨i, hi, rfl⟩ := Option.map_eq_some_iff.1 (Option.mem_toList.1 hx)
      obtain ⟨f, hf, hi⟩ := Option.bind_eq_some_iff.1 hi
      exact ⟨f, hs f hf, hi⟩
    | openBrace =>
      simp only [step, hm, List.not_mem_nil, false_imp_iff, implies_true, and_true]
      exact ownerOf_origin hb
    | closeBrace => simp [step, hm, Level.owner]
  | block owner =>
    have h : ∀ r ∈ owner, r.Origin P := h
    cases hm : c.mark with
    | semicolon =>
      simp only [step, hm, List.not_mem_nil, false_imp_iff, implies_true, and_true]
      intro r' hr'
      obtain ⟨r, hr, rfl⟩ := Option.map_eq_some_iff.1 hr'
      exact (h r hr).declare hb
    | openBrace =>
      simp only [step, hm, List.not_mem_nil, false_imp_iff, implies_true, and_true]
      exact h
    | closeBrace =>
      simp only [step, hm, Level.owner, Option.mem_def, reduceCtorEq, false_imp_iff, implies_true,
        true_and]
      intro x hx
      obtain ⟨r, hr, rfl⟩ := Option.map_eq_some_iff.1 (Option.mem_toList.1 hx)
      exact ((h r hr).declare hb).endedAt c.stop true
  | nested owner start depth =>
    have h : ∀ r ∈ owner, r.Origin P := h
    cases hm : c.mark with
    | semicolon | openBrace =>
      simp only [step, hm, List.not_mem_nil, false_imp_iff, implies_true, and_true]
      exact h
    | closeBrace =>
      simp only [step, hm]
      split
      · refine ⟨h, fun x hx => ?_⟩
        rw [List.mem_singleton.1 hx]
        trivial
      · exact ⟨h, by simp⟩

theorem Level.finish_origin {level : Level} (h : ∀ r ∈ level.owner, r.Origin P)
    {last : Option Fragment} (hlast : ∀ f ∈ last, P f) (size : Nat) :
    ∀ x ∈ level.finish size last, x.Origin P Q := by
  cases level with
  | outside => simp [finish]
  | block owner =>
    intro x hx
    obtain ⟨r, hr, rfl⟩ := Option.map_eq_some_iff.1 (Option.mem_toList.1 hx)
    exact ((h r hr).declare hlast).endedAt size false
  | nested owner start depth =>
    intro x hx
    rcases List.mem_cons.1 hx with rfl | hx
    · trivial
    · obtain ⟨r, hr, rfl⟩ := Option.map_eq_some_iff.1 (Option.mem_toList.1 hx)
      exact (h r hr).endedAt size false

/-- **All that reading yields comes from what it reads.** -/
theorem itemsFrom_origin {cs : List Clause} (hb : ∀ c ∈ cs, ∀ f ∈ c.body, P f)
    (hs : ∀ c ∈ cs, ∀ f ∈ c.statement, Q f) {last : Option Fragment} (hlast : ∀ f ∈ last, P f)
    {level : Level} (h : ∀ r ∈ level.owner, r.Origin P) (size : Nat) :
    ∀ x ∈ itemsFrom size last level cs, x.Origin P Q := by
  induction cs generalizing level with
  | nil => exact Level.finish_origin h hlast size
  | cons c cs ih =>
    obtain ⟨hlevel, hitems⟩ :=
      Level.step_origin h (hb c List.mem_cons_self) (hs c List.mem_cons_self)
    intro x hx
    rcases List.mem_append.1 hx with hx | hx
    · exact hitems x hx
    · exact ih (fun d hd => hb d (List.mem_cons_of_mem _ hd))
        (fun d hd => hs d (List.mem_cons_of_mem _ hd)) hlevel x hx

end

theorem Text.items_origin (text : Text) :
    ∀ x ∈ text.items, x.Origin text.HasBody fun f => f.In text :=
  itemsFrom_origin (fun _ hc _ hf => Clause.body_hasBody hc hf)
    (fun _ hc _ hf => Clause.statement_in hc hf) (fun _ hf => Clause.last_hasBody hf)
    (by simp [Level.owner]) text.byteLength

/-! ## Sheets -/

namespace Sheet

variable {text : Text}

/-- The clause of a rule is a body of the text. -/
theorem rule_origin {r : Rule} (h : r ∈ (ofText text).rules) :
    ∃ f, text.HasBody f ∧ r.selectorText = f.text ∧ r.selectors = Selector.listOf f :=
  (text.items_origin _ (mem_rules h)).clause

/-- A selector is read from a body of the text. -/
theorem selector_origin {s : Selector} (h : s ∈ (ofText text).selectors) :
    ∃ f, text.HasBody f ∧ s ∈ Selector.listOf f := by
  obtain ⟨r, hr, hs⟩ := List.mem_flatMap.1 h
  obtain ⟨f, hf, -, heq⟩ := rule_origin hr
  exact ⟨f, hf, heq ▸ hs⟩

/-- A declaration is read from a body of the text. -/
theorem declaration_origin {d : Declaration} (h : d ∈ (ofText text).declarations) :
    ∃ f, text.HasBody f ∧ Declaration.ofFragment? f = some d := by
  obtain ⟨r, hr, hd⟩ := List.mem_flatMap.1 h
  exact (text.items_origin _ (mem_rules hr)).declarations d hd

/-- An import is read from a statement of the text. -/
theorem import_origin {i : Import} (h : i ∈ (ofText text).imports) :
    ∃ f : Fragment, f.In text ∧ Import.ofFragment? f = some i :=
  text.items_origin _ (mem_imports h)

end Sheet

end StyleServer
