/-
  Where the items of a sheet stand.

  Reading completes items in order.  `SheetItem.Precedes` says how two of them stand to
  each other: one behind the other, or a nested block inside the rule that is completed
  after it.

  * `Rule.OpenAt` is the invariant of an open rule, `Level.LaidAt` that of a level.
  * `Level.step_laid`, `Level.step_items` and `Level.step_continues`: what one clause
    does to them; `itemsFrom_laid`: what reading all clauses yields.
  * `Sheet.ofText_wellLaid`: the structure of a sheet that follows.
-/
import StyleServer.Proofs.Sheet.Clause
import StyleServer.Proofs.Sheet.Statement
import StyleServer.Sheet.Basic
import Mathlib.Data.List.Pairwise

namespace StyleServer

/-- The two spans have no byte in common. -/
def Span.Apart (s t : Span) : Prop := s.stop ≤ t.start ∨ t.stop ≤ s.start

theorem Span.Apart.of_holds {s t u : Span} (h : s.Apart t) (hu : t.holds u = true) :
    s.Apart u := by
  rw [holds_iff] at hu
  rcases h with h | h
  · exact Or.inl (Nat.le_trans h hu.1)
  · exact Or.inr (Nat.le_trans hu.2 h)

/-! ## Marks in order -/

theorem Clause.Reading.pairwise {size lo : Nat} {cs : List Clause} {last : Option Fragment}
    (h : Reading size lo cs last) : cs.Pairwise fun c d => c.stop ≤ d.start := by
  induction h with
  | last => exact .nil
  | clause _ rest ih =>
    exact List.pairwise_cons.2 ⟨fun d hd => (rest.standsBehind d hd).le_start, ih⟩

/-- Of two members of an ordered list, one comes before the other. -/
theorem pairwise_total {α : Type} {R : α → α → Prop} {l : List α} (h : l.Pairwise R) {a b : α}
    (ha : a ∈ l) (hb : b ∈ l) (hne : a ≠ b) : R a b ∨ R b a := by
  have hs : l.Pairwise fun a b => R a b ∨ R b a := h.imp fun hr => Or.inl hr
  have : Std.Symm fun a b => R a b ∨ R b a := ⟨fun _ _ => Or.symm⟩
  exact hs.forall ha hb hne

theorem Clause.token_mem {text : Text} {c : Clause} (h : c ∈ text.clauses.1) :
    c.token ∈ tokens text :=
  (List.mem_filter.1 (filter_tokens text ▸ List.mem_map_of_mem h)).1

/-- Between the start of a clause and its mark stands no other mark. -/
theorem Clause.mark_before {text : Text} {c : Clause} (h : c ∈ text.clauses.1) {t : Token}
    (ht : t ∈ tokens text) (hm : t.isMark = true) (hlt : t.span.start < c.offset) :
    t.span.stop ≤ c.start := by
  have hmem : t ∈ (tokens text).filter Token.isMark := List.mem_filter.2 ⟨ht, hm⟩
  rw [filter_tokens] at hmem
  obtain ⟨d, hd, rfl⟩ := List.mem_map.1 hmem
  have hne : d ≠ c := by rintro rfl; exact absurd hlt (Nat.lt_irrefl _)
  rcases pairwise_total (reading_clauses text).pairwise hd h hne with hdc | hcd
  · exact hdc
  · have := ((reading_clauses text).standsBehind d hd).start_le
    simp only [stop, token] at *
    omega

/-! ## Rules -/

namespace Rule

/-- The brace is the first mark behind the start of the rule. -/
structure OpenedBy (text : Text) (r : Rule) (brace : Token) : Prop where
  mem : brace ∈ tokens text
  kind : brace.kind = .mark .openBrace
  start_le : r.span.start ≤ brace.span.start
  stop_eq : brace.span.stop = brace.span.start + 1
  first : ∀ t ∈ tokens text, t.isMark = true → t.span.start < brace.span.start →
    t.span.stop ≤ r.span.start

/-- The parts of a rule: selectors before its brace, declarations behind it. -/
structure Laid (text : Text) (r : Rule) : Prop where
  pos : r.span.start < r.span.stop
  le_size : r.span.stop ≤ text.byteLength
  brace : ∃ b, r.OpenedBy text b ∧ b.span.stop ≤ r.span.stop ∧
    (∀ s ∈ r.selectors, r.span.start ≤ s.span.start ∧ s.span.stop ≤ b.span.start) ∧
    ∀ d ∈ r.declarations, b.span.stop ≤ d.span.start ∧ d.span.stop ≤ r.span.stop
  selectors_pos : ∀ s ∈ r.selectors, s.span.start < s.span.stop
  selectors_ordered : r.selectors.Pairwise fun s t => s.span.stop < t.span.start
  declarations_laid : ∀ d ∈ r.declarations, d.Laid
  declarations_ordered : r.declarations.Pairwise fun d e => d.span.stop < e.span.start

theorem Laid.holds_selector {text : Text} {r : Rule} (h : r.Laid text) {s : Selector}
    (hs : s ∈ r.selectors) : r.span.holds s.span = true := by
  obtain ⟨b, hb, hstop, hsel, -⟩ := h.brace
  have := hsel s hs
  have := hb.stop_eq
  exact Span.holds_iff.2 ⟨by omega, by omega⟩

theorem Laid.holds_declaration {text : Text} {r : Rule} (h : r.Laid text) {d : Declaration}
    (hd : d ∈ r.declarations) : r.span.holds d.span = true := by
  obtain ⟨b, hb, -, -, hdecl⟩ := h.brace
  have := hdecl d hd
  have := hb.start_le
  have := hb.stop_eq
  exact Span.holds_iff.2 ⟨by omega, by omega⟩

/-- A rule that the clause `c` of the text has opened, and whose declarations stand
    before `lo`. -/
structure OpenAt (text : Text) (c : Clause) (lo : Nat) (r : Rule) : Prop where
  mem : c ∈ text.clauses.1
  mark : c.mark = .openBrace
  clause : ∃ f, c.body = some f ∧ r.span.start = f.start ∧ r.selectors = Selector.listOf f
  stop_le : c.stop ≤ lo
  declarations : ∀ d ∈ r.declarations, d.Laid ∧ c.stop ≤ d.span.start ∧ d.span.stop < lo
  ordered : r.declarations.Pairwise fun d e => d.span.stop < e.span.start

variable {text : Text} {c : Clause} {lo hi : Nat} {r : Rule}

theorem OpenAt.mono (h : r.OpenAt text c lo) (hle : lo ≤ hi) : r.OpenAt text c hi :=
  { h with
    stop_le := Nat.le_trans h.stop_le hle
    declarations := fun d hd =>
      have hd := h.declarations d hd
      ⟨hd.1, hd.2.1, Nat.lt_of_lt_of_le hd.2.2 hle⟩ }

theorem OpenAt.start_eq (h : r.OpenAt text c lo) : r.span.start = c.start := by
  obtain ⟨f, hb, hs, -⟩ := h.clause
  rw [hs, Clause.start, hb]
  rfl

/-- Selectors stand between the start of their rule and its brace. -/
theorem OpenAt.selectors_inside (h : r.OpenAt text c lo) :
    ∀ s ∈ r.selectors, r.span.start ≤ s.span.start ∧ s.span.stop ≤ c.offset ∧
      s.span.start < s.span.stop := by
  obtain ⟨f, hb, hs, hsel⟩ := h.clause
  intro s hmem
  obtain ⟨hin, hpos⟩ := Selector.listOf_holds (hsel ▸ hmem)
  have hstop := (((Clause.reading_clauses text).standsBehind c h.mem).body f hb).2
  rw [Span.holds_iff] at hin
  simp only [Fragment.span] at hin
  exact ⟨hs ▸ hin.1, by omega, hpos⟩

/-- A rule is opened by the mark of its clause. -/
theorem OpenAt.openedBy (h : r.OpenAt text c lo) : r.OpenedBy text c.token where
  mem := Clause.token_mem h.mem
  kind := by simp [Clause.token, h.mark]
  start_le := h.start_eq ▸ ((Clause.reading_clauses text).standsBehind c h.mem).start_le
  stop_eq := rfl
  first := fun _ ht hmark hlt => h.start_eq ▸ Clause.mark_before h.mem ht hmark hlt

/-- What a statement behind `lo` adds to an open rule. -/
theorem declare_eq (r : Rule) (statement : Option Fragment) :
    ∃ ds, (r.declare statement).declarations = r.declarations ++ ds ∧
      ds.Pairwise (fun d e => d.span.stop < e.span.start) ∧
      ∀ d ∈ ds, d.Laid ∧ ∃ f ∈ statement, f.span.holds d.span = true := by
  refine ⟨_, rfl, ?_, fun d hd => ?_⟩
  · cases statement.bind Declaration.ofFragment? <;> simp
  · obtain ⟨f, hf, hd⟩ := Option.bind_eq_some_iff.1 (Option.mem_toList.1 hd)
    obtain ⟨hlaid, hin⟩ := Declaration.ofFragment?_laid hd
    exact ⟨hlaid, f, hf, hin⟩

theorem OpenAt.declare (h : r.OpenAt text c lo) {statement : Option Fragment}
    (hf : ∀ f ∈ statement, lo ≤ f.start ∧ f.stop < hi) (hle : lo ≤ hi) :
    (r.declare statement).OpenAt text c hi := by
  obtain ⟨ds, heq, hordered, hds⟩ := declare_eq r statement
  have hnew : ∀ d ∈ ds, d.Laid ∧ lo ≤ d.span.start ∧ d.span.stop < hi := by
    intro d hd
    obtain ⟨hlaid, f, hmem, hin⟩ := hds d hd
    have := hf f hmem
    rw [Span.holds_iff] at hin
    simp only [Fragment.span] at hin
    exact ⟨hlaid, by omega, by omega⟩
  refine ⟨h.mem, h.mark, h.clause, Nat.le_trans h.stop_le hle, ?_, ?_⟩
  · rw [heq]
    intro d hd
    rcases List.mem_append.1 hd with hd | hd
    · exact (h.mono hle).declarations d hd
    · exact ⟨(hnew d hd).1, Nat.le_trans h.stop_le (hnew d hd).2.1, (hnew d hd).2.2⟩
  · rw [heq]
    refine List.pairwise_append.2 ⟨h.ordered, hordered, fun d hd e he => ?_⟩
    exact Nat.lt_of_lt_of_le (h.declarations d hd).2.2 (hnew e he).2.1

/-- **A rule that ends is laid out.** -/
theorem OpenAt.laid (h : r.OpenAt text c lo) {statement : Option Fragment} {stop : Nat}
    (hf : ∀ f ∈ statement, lo ≤ f.start ∧ f.stop ≤ stop) (hle : lo ≤ stop)
    (hsize : stop ≤ text.byteLength) (closed : Bool) :
    ((r.declare statement).endedAt stop closed).Laid text := by
  have hdecl : (r.declare statement).OpenAt text c (stop + 1) :=
    h.declare (fun f hmem => ⟨(hf f hmem).1, Nat.lt_succ_of_le (hf f hmem).2⟩)
      (Nat.le_succ_of_le hle)
  have hstop : c.stop ≤ stop := Nat.le_trans h.stop_le hle
  have hstart : r.span.start ≤ c.offset := h.openedBy.start_le
  refine ⟨?_, hsize, ⟨c.token, { h.openedBy with }, hstop, fun s hs => ?_, fun d hd => ?_⟩, fun s hs => ?_, ?_,
    fun d hd => (hdecl.declarations d hd).1, hdecl.ordered⟩
  · simp only [Clause.stop] at hstop
    simp only [endedAt, Rule.declare]
    omega
  · have := h.selectors_inside s hs
    exact ⟨this.1, this.2.1⟩
  · have := hdecl.declarations d hd
    exact ⟨this.2.1, Nat.le_of_lt_succ this.2.2⟩
  · exact (h.selectors_inside s hs).2.2
  · obtain ⟨f, -, -, hsel⟩ := h.clause
    show r.selectors.Pairwise _
    rw [hsel]
    exact Selector.listOf_pairwise f

/-- `r'` is `r` at a later time: what it has in addition stands behind `lo`. -/
structure Extends (lo : Nat) (r r' : Rule) : Prop where
  start_eq : r'.span.start = r.span.start
  selectors_eq : r'.selectors = r.selectors
  le_stop : lo ≤ r'.span.stop
  declarations_eq : ∃ ds, r'.declarations = r.declarations ++ ds ∧ ∀ d ∈ ds, lo ≤ d.span.start

theorem Extends.mono {r' : Rule} (h : r.Extends hi r') (hle : lo ≤ hi) : r.Extends lo r' := by
  obtain ⟨ds, heq, hds⟩ := h.declarations_eq
  exact ⟨h.start_eq, h.selectors_eq, Nat.le_trans hle h.le_stop, ds, heq,
    fun d hd => Nat.le_trans hle (hds d hd)⟩

theorem Extends.of_declare {r' : Rule} {statement : Option Fragment}
    (h : (r.declare statement).Extends lo r') (hf : ∀ f ∈ statement, lo ≤ f.start) :
    r.Extends lo r' := by
  obtain ⟨ds, heq, hds⟩ := h.declarations_eq
  obtain ⟨new, hnew, -, hin⟩ := declare_eq r statement
  refine ⟨h.start_eq, h.selectors_eq, h.le_stop, new ++ ds, ?_, fun d hd => ?_⟩
  · rw [heq, hnew, List.append_assoc]
  · rcases List.mem_append.1 hd with hd | hd
    · obtain ⟨-, f, hf', hholds⟩ := hin d hd
      have := (Span.holds_iff.1 hholds).1
      exact Nat.le_trans (hf f hf') this
    · exact hds d hd

theorem extends_endedAt (r : Rule) {stop : Nat} (h : lo ≤ stop) (closed : Bool) :
    r.Extends lo (r.endedAt stop closed) :=
  ⟨rfl, rfl, h, [], (List.append_nil _).symm, by simp⟩

/-- The rule goes around a block: it holds it, with none of its parts in it. -/
structure Around (r : Rule) (block : Span) : Prop where
  holds : r.span.holds block = true
  selectors : ∀ s ∈ r.selectors, block.Apart s.span
  declarations : ∀ d ∈ r.declarations, block.Apart d.span

/-- A block that begins behind the declarations of an open rule lies inside that rule. -/
theorem OpenAt.around {r' : Rule} {block : Span} (h : r.OpenAt text c block.start)
    (he : r.Extends block.stop r') : r'.Around block := by
  obtain ⟨ds, heq, hds⟩ := he.declarations_eq
  have hbrace := h.stop_le
  simp only [Clause.stop] at hbrace
  refine ⟨?_, fun s hs => ?_, fun d hd => ?_⟩
  · have := h.openedBy.start_le
    simp only [Clause.token] at this
    rw [Span.holds_iff, he.start_eq]
    exact ⟨by omega, he.le_stop⟩
  · rw [he.selectors_eq] at hs
    have := (h.selectors_inside s hs).2.1
    exact Or.inr (by omega)
  · rw [heq] at hd
    rcases List.mem_append.1 hd with hd | hd
    · exact Or.inr (Nat.le_of_lt (h.declarations d hd).2.2)
    · exact Or.inl (hds d hd)

end Rule

/-! ## Items -/

namespace SheetItem

/-- The span of an item. -/
def span : SheetItem → Span
  | rule r => r.span
  | directive i => i.span
  | nested s => s

/-- An item stands before a later one, or is a block inside a rule. -/
def Precedes (x y : SheetItem) : Prop :=
  x.span.stop ≤ y.span.start ∨ ∃ block r, x = nested block ∧ y = rule r ∧ r.Around block

theorem Precedes.stop_le {x y : SheetItem} (h : x.Precedes y)
    (hne : ∀ n r, x = nested n → y ≠ rule r) : x.span.stop ≤ y.span.start := by
  rcases h with h | ⟨n, r, hn, hr, -⟩
  · exact h
  · exact absurd hr (hne n r hn)

/-- An item is not empty and lies in the text, and its parts lie in it. -/
def Laid (text : Text) : SheetItem → Prop
  | rule r => r.Laid text
  | directive i => i.span.start < i.span.stop ∧ i.span.stop ≤ text.byteLength
  | nested s => s.start < s.stop ∧ s.stop ≤ text.byteLength

theorem rule?_eq_some {x : SheetItem} {r : Rule} (h : x.rule? = some r) : x = rule r := by
  cases x with
  | rule r' => rw [Option.some.inj h]
  | directive | nested => simp [rule?] at h

theorem directive?_eq_some {x : SheetItem} {i : Import} (h : x.directive? = some i) :
    x = directive i := by
  cases x with
  | directive i' => rw [Option.some.inj h]
  | rule | nested => simp [directive?] at h

theorem nested?_eq_some {x : SheetItem} {n : Span} (h : x.nested? = some n) : x = nested n := by
  cases x with
  | nested n' => rw [Option.some.inj h]
  | rule | directive => simp [nested?] at h

end SheetItem

/-! ## Levels -/

namespace Level

/-- The rule that owns the open block. -/
def owner : Level → Option Rule
  | outside => none
  | block owner | nested owner _ _ => owner

/-- Where the next item begins at the earliest, when reading stands at `lo`. -/
def floor (lo : Nat) : Level → Nat
  | outside | block _ => lo
  | nested _ start _ => start

/-- The invariant of reading: an open rule is laid out so far, and an open nested block
    begins before `lo`. -/
structure LaidAt (text : Text) (lo : Nat) (level : Level) : Prop where
  owner : ∀ r ∈ level.owner, ∃ c, r.OpenAt text c (level.floor lo)
  start_lt : ∀ owner start depth, level = nested owner start depth → start < lo

/-- What reading from a level on may complete: something behind its floor, or its
    owner. -/
def Continues (lo : Nat) (level : Level) (x : SheetItem) : Prop :=
  level.floor lo ≤ x.span.start ∨
    ∃ r ∈ level.owner, ∃ r', x = .rule r' ∧ r.Extends (level.floor lo) r'

theorem Continues.mono {lo lo' : Nat} {level level' : Level} {x : SheetItem}
    (h : level'.Continues lo' x) (hf : level.floor lo ≤ level'.floor lo')
    (ho : ∀ r ∈ level'.owner, r ∈ level.owner) : level.Continues lo x := by
  rcases h with h | ⟨r, hr, r', rfl, he⟩
  · exact Or.inl (Nat.le_trans hf h)
  · exact Or.inr ⟨r, ho r hr, r', rfl, he.mono hf⟩

section
variable {text : Text} {lo : Nat} {level : Level} {c : Clause}

theorem ownerOf_openAt (hc : c ∈ text.clauses.1) (hm : c.mark = .openBrace) :
    ∀ r ∈ ownerOf c, r.OpenAt text c c.stop := by
  intro r hr
  unfold ownerOf at hr
  split at hr
  · next body hb =>
    split at hr
    · simp at hr
    · obtain rfl := Option.some.inj hr
      exact ⟨hc, hm, ⟨body, hb, rfl, rfl⟩, Nat.le_refl _, by simp [Rule.opened],
        by simp [Rule.opened]⟩
  · simp at hr

/-- The level behind a clause is laid out behind it. -/
theorem step_laid (h : level.LaidAt text lo) (hc : c ∈ text.clauses.1) (hs : c.StandsBehind lo) :
    (level.step c).1.LaidAt text c.stop := by
  have hlt : c.start < c.stop := Nat.lt_succ_of_le hs.start_le
  cases level with
  | outside =>
    cases hm : c.mark with
    | semicolon | closeBrace => exact ⟨by simp [step, hm, Level.owner], by simp [step, hm]⟩
    | openBrace =>
      simp only [step, hm]
      exact ⟨fun r hr => ⟨c, ownerOf_openAt hc hm r hr⟩, by simp⟩
  | block owner =>
    cases hm : c.mark with
    | semicolon =>
      simp only [step, hm]
      refine ⟨fun r hr => ?_, by simp⟩
      obtain ⟨r, hr', rfl⟩ := Option.map_eq_some_iff.1 hr
      obtain ⟨o, ho⟩ := h.owner r hr'
      refine ⟨o, ho.declare (fun f hf => ⟨(hs.body f hf).1, ?_⟩) hs.le_stop⟩
      exact Nat.lt_succ_of_le (hs.body f hf).2
    | closeBrace => exact ⟨by simp [step, hm, Level.owner], by simp [step, hm]⟩
    | openBrace =>
      simp only [step, hm]
      refine ⟨fun r hr => ?_, fun _ _ _ heq => by cases heq; exact hlt⟩
      obtain ⟨o, ho⟩ := h.owner r hr
      exact ⟨o, ho.mono hs.le_start⟩
  | nested owner start depth =>
    have hstart : start < c.stop := Nat.lt_of_lt_of_le (h.start_lt _ _ _ rfl) hs.le_stop
    cases hm : c.mark with
    | semicolon | openBrace =>
      simp only [step, hm]
      exact ⟨h.owner, fun _ _ _ heq => by cases heq; exact hstart⟩
    | closeBrace =>
      simp only [step, hm]
      split
      · refine ⟨fun r hr => ?_, by simp⟩
        obtain ⟨o, ho⟩ := h.owner r hr
        exact ⟨o, ho.mono (Nat.le_of_lt hstart)⟩
      · exact ⟨h.owner, fun _ _ _ heq => by cases heq; exact hstart⟩

/-- What may be completed behind a clause might be completed before it. -/
theorem step_continues (h : level.LaidAt text lo) (hc : c ∈ text.clauses.1)
    (hs : c.StandsBehind lo) {x : SheetItem} (hx : (level.step c).1.Continues c.stop x) :
    level.Continues lo x := by
  cases level with
  | outside =>
    cases hm : c.mark with
    | semicolon | closeBrace =>
      simp only [step, hm] at hx
      exact hx.mono hs.le_stop (by simp [Level.owner])
    | openBrace =>
      simp only [step, hm] at hx
      rcases hx with hx | ⟨r, hr, r', rfl, he⟩
      · exact Or.inl (Nat.le_trans hs.le_stop hx)
      · -- The rule that the clause opens begins with it.
        refine Or.inl ?_
        show lo ≤ r'.span.start
        rw [he.start_eq, (ownerOf_openAt hc hm r hr).start_eq]
        exact hs.le_start
  | block owner =>
    cases hm : c.mark with
    | semicolon =>
      simp only [step, hm] at hx
      rcases hx with hx | ⟨r, hr, r', rfl, he⟩
      · exact Or.inl (Nat.le_trans hs.le_stop hx)
      · obtain ⟨r, hr', rfl⟩ := Option.map_eq_some_iff.1 hr
        refine Or.inr ⟨r, hr', r', rfl, ?_⟩
        exact (he.mono hs.le_stop).of_declare fun f hf => (hs.body f hf).1
    | closeBrace =>
      simp only [step, hm] at hx
      exact hx.mono hs.le_stop (by simp [Level.owner])
    | openBrace =>
      simp only [step, hm] at hx
      exact hx.mono hs.le_start fun r hr => hr
  | nested owner start depth =>
    have hstart : start < c.stop := Nat.lt_of_lt_of_le (h.start_lt _ _ _ rfl) hs.le_stop
    cases hm : c.mark with
    | semicolon | openBrace => simp only [step, hm] at hx; exact hx
    | closeBrace =>
      simp only [step, hm] at hx
      split at hx
      · exact hx.mono (Nat.le_of_lt hstart) fun r hr => hr
      · exact hx

/-- What a clause completes is laid out, and stands before all that may follow. -/
theorem step_items (h : level.LaidAt text lo) (hs : c.StandsBehind lo)
    (hsize : c.stop ≤ text.byteLength) : ∀ x ∈ (level.step c).2,
      x.Laid text ∧ level.Continues lo x ∧
        ∀ y, (level.step c).1.Continues c.stop y → x.Precedes y := by
  cases level with
  | outside =>
    cases hm : c.mark with
    | openBrace | closeBrace => simp [step, hm]
    | semicolon =>
      intro x hx
      simp only [step, hm, Option.mem_toList, Option.map_eq_some_iff] at hx ⊢
      obtain ⟨i, hi, rfl⟩ := hx
      obtain ⟨f, hf, hi⟩ := Option.bind_eq_some_iff.1 hi
      have hspan : i.span = ⟨c.start, c.stop⟩ := by
        rw [Import.ofFragment?_span hi, hs.statement_span f hf]
      have hlt : c.start < c.stop := Nat.lt_succ_of_le hs.start_le
      refine ⟨⟨by rw [hspan]; exact hlt, by rw [hspan]; exact hsize⟩, Or.inl ?_, fun y hy => ?_⟩
      · show lo ≤ i.span.start
        rw [hspan]; exact hs.le_start
      · rcases hy with hy | ⟨r, hr, -⟩
        · exact Or.inl (by show i.span.stop ≤ _; rw [hspan]; exact hy)
        · simp [Level.owner] at hr
  | block owner =>
    cases hm : c.mark with
    | openBrace | semicolon => simp [step, hm]
    | closeBrace =>
      intro x hx
      simp only [step, hm, Option.mem_toList, Option.map_eq_some_iff] at hx ⊢
      obtain ⟨r, hr, rfl⟩ := hx
      obtain ⟨o, ho⟩ := h.owner r hr
      have hbody : ∀ f ∈ c.body, lo ≤ f.start ∧ f.stop ≤ c.stop := fun f hf =>
        ⟨(hs.body f hf).1, Nat.le_succ_of_le (hs.body f hf).2⟩
      refine ⟨ho.laid hbody hs.le_stop hsize true, Or.inr ⟨r, hr, _, rfl, ?_⟩, fun y hy => ?_⟩
      · exact (Rule.extends_endedAt _ hs.le_stop true).of_declare fun f hf => (hbody f hf).1
      · rcases hy with hy | ⟨r, hr, -⟩
        · exact Or.inl hy
        · simp [Level.owner] at hr
  | nested owner start depth =>
    cases hm : c.mark with
    | openBrace | semicolon => simp [step, hm]
    | closeBrace =>
      intro x hx
      simp only [step, hm] at hx ⊢
      split at hx
      · next hd =>
        rw [if_pos hd]
        obtain rfl := List.mem_singleton.1 hx
        have hstart : start < c.stop := Nat.lt_of_lt_of_le (h.start_lt _ _ _ rfl) hs.le_stop
        refine ⟨⟨hstart, hsize⟩, Or.inl (Nat.le_refl start), fun y hy => ?_⟩
        rcases hy with hy | ⟨r, hr, r', rfl, he⟩
        · exact Or.inl hy
        · obtain ⟨o, ho⟩ := h.owner r hr
          exact Or.inr ⟨_, r', rfl, rfl, ho.around he⟩
      · simp at hx

/-- A clause completes at most one item. -/
theorem step_pairwise (level : Level) (c : Clause) : (level.step c).2.Pairwise SheetItem.Precedes := by
  have hopt : ∀ o : Option SheetItem, o.toList.Pairwise SheetItem.Precedes := by
    intro o
    cases o <;> simp
  cases level with
  | outside => cases hm : c.mark <;> simp only [step, hm, List.Pairwise.nil, hopt]
  | block owner => cases hm : c.mark <;> simp only [step, hm, List.Pairwise.nil, hopt]
  | nested owner start depth =>
    cases hm : c.mark with
    | semicolon | openBrace => simp [step, hm]
    | closeBrace =>
      simp only [step, hm]
      split <;> simp

/-- What is left open at the end of the text is laid out, too. -/
theorem finish_items (h : level.LaidAt text lo) (hle : lo ≤ text.byteLength)
    {last : Option Fragment} (hlast : ∀ f ∈ last, lo ≤ f.start ∧ f.stop ≤ text.byteLength) :
    (∀ x ∈ level.finish text.byteLength last, x.Laid text ∧ level.Continues lo x) ∧
      (level.finish text.byteLength last).Pairwise SheetItem.Precedes := by
  cases level with
  | outside => simp [finish]
  | block owner =>
    cases owner with
    | none => simp [finish]
    | some r =>
      obtain ⟨o, ho⟩ := h.owner r rfl
      simp only [finish, Option.map_some, Option.toList_some, List.mem_singleton, forall_eq,
        List.pairwise_singleton, and_true]
      refine ⟨ho.laid hlast hle (Nat.le_refl _) false, Or.inr ⟨r, rfl, _, rfl, ?_⟩⟩
      exact (Rule.extends_endedAt _ hle false).of_declare fun f hf => (hlast f hf).1
  | nested owner start depth =>
    have hstart : start < text.byteLength := Nat.lt_of_lt_of_le (h.start_lt _ _ _ rfl) hle
    cases owner with
    | none =>
      simp only [finish, Option.map_none, Option.toList_none, List.mem_singleton, forall_eq,
        List.pairwise_singleton, and_true]
      exact ⟨⟨hstart, Nat.le_refl _⟩, Or.inl (Nat.le_refl start)⟩
    | some r =>
      obtain ⟨o, ho⟩ := h.owner r rfl
      have hlaid : (r.endedAt text.byteLength false).Laid text := by
        have hnone : r.declare none = r := by simp [Rule.declare]
        rw [← hnone]
        exact ho.laid (by simp) (Nat.le_of_lt hstart) (Nat.le_refl _) false
      have he : r.Extends text.byteLength (r.endedAt text.byteLength false) :=
        Rule.extends_endedAt r (Nat.le_refl _) false
      refine ⟨fun x hx => ?_, ?_⟩
      · rcases List.mem_cons.1 hx with rfl | hx
        · exact ⟨⟨hstart, Nat.le_refl _⟩, Or.inl (Nat.le_refl start)⟩
        · obtain rfl := List.mem_singleton.1 hx
          exact ⟨hlaid, Or.inr ⟨r, rfl, _, rfl, he.mono (Nat.le_of_lt hstart)⟩⟩
      · exact List.pairwise_pair.2 (Or.inr ⟨_, _, rfl, rfl, ho.around he⟩)

end

end Level

/-- **All that reading completes is laid out in order.**  Induction along the clauses; the
    invariant is `Level.LaidAt`. -/
theorem itemsFrom_laid {text : Text} {lo : Nat} {cs : List Clause} {last : Option Fragment}
    (hr : Clause.Reading text.byteLength lo cs last) (hcs : ∀ c ∈ cs, c ∈ text.clauses.1)
    {level : Level} (h : level.LaidAt text lo) :
    (∀ x ∈ itemsFrom text.byteLength last level cs, x.Laid text ∧ level.Continues lo x) ∧
      (itemsFrom text.byteLength last level cs).Pairwise SheetItem.Precedes := by
  induction hr generalizing level with
  | last hle hlast => exact Level.finish_items h hle hlast
  | @clause lo c cs last hs rest ih =>
    have hc := hcs c List.mem_cons_self
    obtain ⟨hlaid, hordered⟩ := ih (fun d hd => hcs d (List.mem_cons_of_mem _ hd))
      (Level.step_laid h hc hs)
    have hitems := Level.step_items h hs rest.le_size
    refine ⟨fun x hx => ?_, ?_⟩
    · rcases List.mem_append.1 hx with hx | hx
      · exact ⟨(hitems x hx).1, (hitems x hx).2.1⟩
      · exact ⟨(hlaid x hx).1, Level.step_continues h hc hs (hlaid x hx).2⟩
    · refine List.pairwise_append.2 ⟨?_, hordered, fun x hx y hy => ?_⟩
      · exact Level.step_pairwise level c
      · exact (hitems x hx).2.2 y (hlaid y hy).2

theorem items_laid (text : Text) :
    (∀ x ∈ text.items, x.Laid text) ∧ text.items.Pairwise SheetItem.Precedes := by
  have houtside : Level.outside.LaidAt text 0 := ⟨by simp [Level.owner], by simp⟩
  have h := itemsFrom_laid (Clause.reading_clauses text) (fun _ hc => hc) houtside
  exact ⟨fun x hx => (h.1 x hx).1, h.2⟩

/-! ## Sheets -/

namespace Sheet

/-- The structure of a sheet. -/
structure WellLaid (s : Sheet) : Prop where
  /-- Each rule is not empty, lies in the text and holds its parts in order. -/
  rules_laid : ∀ r ∈ s.rules, r.Laid s.source
  rules_ordered : s.rules.Pairwise fun r r' => r.span.stop ≤ r'.span.start
  nested_laid : ∀ n ∈ s.nestedBlocks, n.start < n.stop ∧ n.stop ≤ s.source.byteLength
  nested_ordered : s.nestedBlocks.Pairwise fun m n => m.stop ≤ n.start
  nested_selectors : ∀ n ∈ s.nestedBlocks, ∀ sel ∈ s.selectors, n.Apart sel.span
  nested_declarations : ∀ n ∈ s.nestedBlocks, ∀ d ∈ s.declarations, n.Apart d.span
  nested_rules : ∀ n ∈ s.nestedBlocks,
    (∃ r ∈ s.rules, r.span.holds n = true) ∨ ∀ r ∈ s.rules, n.Apart r.span
  imports_laid : ∀ i ∈ s.imports, i.span.start < i.span.stop ∧ i.span.stop ≤ s.source.byteLength
  imports_ordered : s.imports.Pairwise fun i j => i.span.stop ≤ j.span.start
  imports_rules : ∀ i ∈ s.imports, ∀ r ∈ s.rules, i.span.Apart r.span
  imports_nested : ∀ i ∈ s.imports, ∀ n ∈ s.nestedBlocks, i.span.Apart n
  /-- The variables are the declarations whose names begin with two dashes, in order. -/
  customs_eq : (s.customProperties.map fun c => (c.name, c.value, c.nameSpan, c.span)) =
    (s.declarations.filter fun d => ['-', '-'].isPrefixOf d.name.toList).map fun d =>
      (d.name, d.value, d.nameSpan, d.span)
  /-- The index of a variable is that of its rule. -/
  customs_rule : ∀ c ∈ s.customProperties, ∃ r, s.rules[c.rule]? = some r ∧
    ∃ d ∈ r.declarations, c = ⟨d.name, d.value, d.nameSpan, d.span, c.rule⟩

variable {text : Text}

theorem mem_rules {r : Rule} (h : r ∈ (ofText text).rules) : .rule r ∈ text.items := by
  obtain ⟨x, hx, hr⟩ := List.mem_filterMap.1 h
  exact SheetItem.rule?_eq_some hr ▸ hx

theorem mem_imports {i : Import} (h : i ∈ (ofText text).imports) : .directive i ∈ text.items := by
  obtain ⟨x, hx, hi⟩ := List.mem_filterMap.1 h
  exact SheetItem.directive?_eq_some hi ▸ hx

theorem mem_nestedBlocks {n : Span} (h : n ∈ (ofText text).nestedBlocks) :
    .nested n ∈ text.items := by
  obtain ⟨x, hx, hn⟩ := List.mem_filterMap.1 h
  exact SheetItem.nested?_eq_some hn ▸ hx

/-- An import is apart from all that is no import. -/
theorem apart_of_directive {i : Import} {y : SheetItem} (hi : .directive i ∈ text.items)
    (hy : y ∈ text.items) (hne : .directive i ≠ y) : i.span.Apart y.span := by
  rcases pairwise_total (items_laid text).2 hi hy hne with h | h
  · exact Or.inl (h.stop_le (by simp))
  · exact Or.inr (h.stop_le (by simp))

/-- A nested block is apart from a rule or inside it. -/
theorem apart_or_around {n : Span} {r : Rule} (hn : .nested n ∈ text.items)
    (hr : .rule r ∈ text.items) : n.Apart r.span ∨ r.Around n := by
  rcases pairwise_total (items_laid text).2 hn hr (by simp) with (h | ⟨m, q, hm, hq, ha⟩) |
    (h | ⟨m, q, hm, -⟩)
  · exact Or.inl (Or.inl h)
  · cases hm; cases hq; exact Or.inr ha
  · exact Or.inl (Or.inr h)
  · simp at hm

theorem customProperties_eq (s : Sheet) :
    (s.customProperties.map fun c => (c.name, c.value, c.nameSpan, c.span)) =
      (s.declarations.filter fun d => ['-', '-'].isPrefixOf d.name.toList).map fun d =>
        (d.name, d.value, d.nameSpan, d.span) := by
  simp only [customProperties, declarations, List.map_flatMap, List.filter_flatMap, List.map_map]
  -- Forgetting the indices gives back the rules.
  conv => rhs; rw [← List.zipIdx_map_fst 0 s.rules, List.flatMap_map]
  rfl

theorem customProperties_rule (s : Sheet) : ∀ c ∈ s.customProperties, ∃ r,
    s.rules[c.rule]? = some r ∧
      ∃ d ∈ r.declarations, c = ⟨d.name, d.value, d.nameSpan, d.span, c.rule⟩ := by
  intro c hc
  obtain ⟨⟨r, index⟩, hmem, hc⟩ := List.mem_flatMap.1 hc
  obtain ⟨d, hd, rfl⟩ := List.mem_map.1 hc
  exact ⟨r, List.mem_zipIdx_iff_getElem?.1 hmem, d, (List.mem_filter.1 hd).1, rfl⟩

/-- **The structure of a sheet:** rules, imports and nested blocks stand in order and apart
    from each other, save that a rule may hold nested blocks between its parts. -/
theorem ofText_wellLaid (text : Text) : (ofText text).WellLaid := by
  obtain ⟨hlaid, hordered⟩ := items_laid text
  exact {
    rules_laid := fun r hr => hlaid _ (mem_rules hr)
    rules_ordered := hordered.filterMap _ fun x y h r hr r' hr' => by
      rw [SheetItem.rule?_eq_some hr, SheetItem.rule?_eq_some hr'] at h
      exact h.stop_le (by simp)
    nested_laid := fun n hn => hlaid _ (mem_nestedBlocks hn)
    nested_ordered := hordered.filterMap _ fun x y h m hm n hn => by
      rw [SheetItem.nested?_eq_some hm, SheetItem.nested?_eq_some hn] at h
      exact h.stop_le (by simp)
    nested_selectors := fun n hn sel hsel => by
      obtain ⟨r, hr, hsel⟩ := List.mem_flatMap.1 hsel
      rcases apart_or_around (mem_nestedBlocks hn) (mem_rules hr) with h | h
      · exact h.of_holds ((hlaid _ (mem_rules hr)).holds_selector hsel)
      · exact h.selectors sel hsel
    nested_declarations := fun n hn d hd => by
      obtain ⟨r, hr, hd⟩ := List.mem_flatMap.1 hd
      rcases apart_or_around (mem_nestedBlocks hn) (mem_rules hr) with h | h
      · exact h.of_holds ((hlaid _ (mem_rules hr)).holds_declaration hd)
      · exact h.declarations d hd
    nested_rules := fun n hn => by
      by_cases hin : ∃ r ∈ (ofText text).rules, r.span.holds n = true
      · exact Or.inl hin
      · refine Or.inr fun r hr => ?_
        rcases apart_or_around (mem_nestedBlocks hn) (mem_rules hr) with h | h
        · exact h
        · exact absurd ⟨r, hr, h.holds⟩ hin
    imports_laid := fun i hi => hlaid _ (mem_imports hi)
    imports_ordered := hordered.filterMap _ fun x y h i hi j hj => by
      rw [SheetItem.directive?_eq_some hi, SheetItem.directive?_eq_some hj] at h
      exact h.stop_le (by simp)
    imports_rules := fun i hi r hr => apart_of_directive (mem_imports hi) (mem_rules hr) (by simp)
    imports_nested := fun i hi n hn =>
      apart_of_directive (mem_imports hi) (mem_nestedBlocks hn) (by simp)
    customs_eq := customProperties_eq _
    customs_rule := customProperties_rule _ }

theorem declaration_laid {d : Declaration} (hd : d ∈ (ofText text).declarations) : d.Laid := by
  obtain ⟨rule, hrule, hin⟩ := List.mem_flatMap.1 hd
  exact ((ofText_wellLaid text).rules_laid rule hrule).declarations_laid d hin

/-- Every style sheet is read into a sheet of this structure. -/
theorem parse_wellLaid (text : String) : (parse text).WellLaid := ofText_wellLaid text.toList

end Sheet

end StyleServer
