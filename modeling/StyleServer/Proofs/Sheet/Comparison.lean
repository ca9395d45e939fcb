/-
  Two readings side by side.

  Two texts may have clauses that differ in what they hold and still do the same, one by one.
  What is read from the one then goes along with what is read from the other.

  * `Comparison`: what is compared of two readings.
  * `Comparison.Alike`, `Comparison.SameClause`: levels and clauses that differ at most in what is
    not compared.
  * `Comparison.step_alike`, `Comparison.itemsFrom_same`: a step, and a run.
  * `Comparison.SameItems.forall₂_rules`, `Comparison.SameItems.nested_eq`,
    `Comparison.SameItems.filter_imports`: what this says about the parts of a sheet.
-/
import Mathlib.Data.List.Forall2
import StyleServer.Sheet.Basic

namespace StyleServer

/-- What is compared of two readings: their rules, which go on to their ends, and what a
    statement outside of all blocks is read as. -/
structure Comparison where
  rule : Rule → Rule → Prop
  directive : Option Import → Option Import → Prop
  endedAt {r r' : Rule} (h : rule r r') (stop : Nat) (closed : Bool) :
    rule (r.endedAt stop closed) (r'.endedAt stop closed)

namespace Comparison

variable (k : Comparison)

/-- Two levels with rules that compare. -/
inductive Alike : Level → Level → Prop where
  | outside : Alike .outside .outside
  | block {o o' : Option Rule} (h : Option.Rel k.rule o o') : Alike (.block o) (.block o')
  | nested {o o' : Option Rule} (h : Option.Rel k.rule o o') (start depth : Nat) :
      Alike (.nested o start depth) (.nested o' start depth)

/-- Two statements add to rules what compares. -/
def SameStatement (s s' : Option Fragment) : Prop :=
  ∀ r r', k.rule r r' → k.rule (r.declare s) (r'.declare s')

/-- Two clauses do the same, whatever they are read as. -/
structure SameClause (c c' : Clause) : Prop where
  mark_eq : c.mark = c'.mark
  start_eq : c.start = c'.start
  stop_eq : c.stop = c'.stop
  directive : k.directive (c.statement.bind Import.ofFragment?)
    (c'.statement.bind Import.ofFragment?)
  owner : Option.Rel k.rule (Level.ownerOf c) (Level.ownerOf c')
  declare : k.SameStatement c.body c'.body

/-- Items that compare one by one.  Where one text has an import, the other need not have one. -/
inductive SameItems : List SheetItem → List SheetItem → Prop where
  | nil : SameItems [] []
  | rule {r r' : Rule} {xs ys : List SheetItem} (h : k.rule r r') (rest : SameItems xs ys) :
      SameItems (.rule r :: xs) (.rule r' :: ys)
  | directive {i i' : Option Import} {xs ys : List SheetItem} (h : k.directive i i')
      (rest : SameItems xs ys) :
      SameItems ((i.map SheetItem.directive).toList ++ xs)
        ((i'.map SheetItem.directive).toList ++ ys)
  | nested (span : Span) {xs ys : List SheetItem} (rest : SameItems xs ys) :
      SameItems (.nested span :: xs) (.nested span :: ys)

variable {k}

theorem SameItems.append {xs ys xs' ys' : List SheetItem} (h : k.SameItems xs ys)
    (h' : k.SameItems xs' ys') : k.SameItems (xs ++ xs') (ys ++ ys') := by
  induction h with
  | nil => exact h'
  | rule hr rest ih => exact .rule hr ih
  | directive hi rest ih =>
    rw [List.append_assoc, List.append_assoc]
    exact .directive hi ih
  | nested span rest ih => exact .nested span ih

/-! ## A step -/

section
variable {o o' : Option Rule} {f f' : Rule → Rule}

theorem map_rule (h : Option.Rel k.rule o o') (hf : ∀ r r', k.rule r r' → k.rule (f r) (f' r')) :
    Option.Rel k.rule (o.map f) (o'.map f') := by
  cases h with
  | none => exact .none
  | some hr => exact .some (hf _ _ hr)

/-- A rule that is open in both texts is completed in both. -/
theorem sameItems_rule (h : Option.Rel k.rule o o')
    (hf : ∀ r r', k.rule r r' → k.rule (f r) (f' r')) :
    k.SameItems (o.map fun r => .rule (f r)).toList (o'.map fun r => .rule (f' r)).toList := by
  cases h with
  | none => exact .nil
  | some hr => exact .rule (hf _ _ hr) .nil

end

/-- Alike levels stay alike, and what they complete compares. -/
theorem step_alike {l l' : Level} (h : k.Alike l l') {c c' : Clause} (hc : k.SameClause c c') :
    k.Alike (l.step c).1 (l'.step c').1 ∧ k.SameItems (l.step c).2 (l'.step c').2 := by
  cases h with
  | outside =>
    cases hm : c.mark with
    | semicolon =>
      simp only [Level.step, hm, ← hc.mark_eq]
      have hitems := SameItems.directive hc.directive .nil
      rw [List.append_nil, List.append_nil] at hitems
      exact ⟨.outside, hitems⟩
    | openBrace =>
      simp only [Level.step, hm, ← hc.mark_eq]
      exact ⟨.block hc.owner, .nil⟩
    | closeBrace =>
      simp only [Level.step, hm, ← hc.mark_eq]
      exact ⟨.outside, .nil⟩
  | @block o o' h =>
    cases hm : c.mark with
    | semicolon =>
      simp only [Level.step, hm, ← hc.mark_eq]
      exact ⟨.block (map_rule h hc.declare), .nil⟩
    | openBrace =>
      simp only [Level.step, hm, ← hc.mark_eq, ← hc.start_eq]
      exact ⟨.nested h c.start 1, .nil⟩
    | closeBrace =>
      simp only [Level.step, hm, ← hc.mark_eq, ← hc.stop_eq]
      exact ⟨.outside,
        sameItems_rule h fun r r' hr => k.endedAt (hc.declare r r' hr) c.stop true⟩
  | @nested o o' h start depth =>
    cases hm : c.mark with
    | semicolon =>
      simp only [Level.step, hm, ← hc.mark_eq]
      exact ⟨.nested h start depth, .nil⟩
    | openBrace =>
      simp only [Level.step, hm, ← hc.mark_eq]
      exact ⟨.nested h start (depth + 1), .nil⟩
    | closeBrace =>
      simp only [Level.step, hm, ← hc.mark_eq, ← hc.stop_eq]
      split
      · exact ⟨.block h, .nested _ .nil⟩
      · exact ⟨.nested h start (depth - 1), .nil⟩

theorem finish_alike {l l' : Level} (h : k.Alike l l') {last last' : Option Fragment}
    (hlast : k.SameStatement last last') (size : Nat) :
    k.SameItems (l.finish size last) (l'.finish size last') := by
  cases h with
  | outside => exact .nil
  | block h => exact sameItems_rule h fun r r' hr => k.endedAt (hlast r r' hr) size false
  | nested h start depth =>
    exact .nested _ (sameItems_rule h fun r r' hr => k.endedAt hr size false)

/-! ## A run -/

/-- **Readings of clauses that do the same** yield what compares. -/
theorem itemsFrom_same {cs cs' : List Clause} (h : List.Forall₂ k.SameClause cs cs')
    {last last' : Option Fragment} (hlast : k.SameStatement last last') {l l' : Level}
    (hl : k.Alike l l') (size : Nat) :
    k.SameItems (itemsFrom size last l cs) (itemsFrom size last' l' cs') := by
  induction h generalizing l l' with
  | nil => exact finish_alike hl hlast size
  | cons hc rest ih =>
    obtain ⟨hstep, hitems⟩ := step_alike hl hc
    exact hitems.append (ih hstep)

namespace SameItems

variable {xs ys : List SheetItem}

theorem forall₂_rules (h : k.SameItems xs ys) :
    List.Forall₂ k.rule (xs.filterMap SheetItem.rule?) (ys.filterMap SheetItem.rule?) := by
  induction h with
  | nil => exact .nil
  | rule hr rest ih => exact .cons hr ih
  | @directive i i' xs ys hi rest ih => cases i <;> cases i' <;> exact ih
  | nested span rest ih => exact ih

theorem nested_eq (h : k.SameItems xs ys) :
    xs.filterMap SheetItem.nested? = ys.filterMap SheetItem.nested? := by
  induction h with
  | nil => rfl
  | rule hr rest ih => exact ih
  | @directive i i' xs ys hi rest ih => cases i <;> cases i' <;> exact ih
  | nested span rest ih => exact congrArg (span :: ·) ih

/-- The imports of which the comparison says that they are the same. -/
theorem filter_imports (h : k.SameItems xs ys) {p : Import → Bool}
    (hp : ∀ i i', k.directive i i' → i.filter p = i'.filter p) :
    (xs.filterMap SheetItem.directive?).filter p =
      (ys.filterMap SheetItem.directive?).filter p := by
  have hfront : ∀ (i : Option Import) (xs : List SheetItem),
      (((i.map SheetItem.directive).toList ++ xs).filterMap SheetItem.directive?).filter p =
        (i.filter p).toList ++ (xs.filterMap SheetItem.directive?).filter p := by
    intro i xs
    cases i with
    | none => rfl
    | some i => cases hi : p i <;> simp [SheetItem.directive?, Option.filter, hi]
  induction h with
  | nil => rfl
  | rule hr rest ih => exact ih
  | directive hi rest ih => rw [hfront, hfront, hp _ _ hi, ih]
  | nested span rest ih => exact ih

end SameItems

end Comparison

end StyleServer
