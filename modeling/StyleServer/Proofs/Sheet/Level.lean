/-
  Levels and depths.

  Reading goes through the clauses level by level; the depth along the tokens counts
  the open braces.  The two agree: `Level.depth` of the level behind some clauses is
  the depth behind their marks.

  * `Level.step_depth`, `Level.behind_depth`: a step, and a run.
  * `itemsFrom_append`: reading goes on from the level that it has reached.
-/
import StyleServer.Diagnostic.Braces
import StyleServer.Proofs.Sheet.Clause
import StyleServer.Sheet.Basic

namespace StyleServer

/-! ## Depths -/

/-- The depth behind tokens. -/
def depthOf (ts : List Token) : Nat := ts.foldl depthAfter 0

theorem depthAfter_text {t : Token} (h : t.isMark = false) (depth : Nat) :
    depthAfter depth t = depth := by
  have hk : t.kind = .text := by simpa [Token.isMark] using h
  simp only [depthAfter, hk]

theorem foldl_depthAfter_filter (depth : Nat) (ts : List Token) :
    (ts.filter Token.isMark).foldl depthAfter depth = ts.foldl depthAfter depth := by
  induction ts generalizing depth with
  | nil => rfl
  | cons t ts ih =>
    cases hm : t.isMark with
    | true => rw [List.filter_cons_of_pos hm, List.foldl_cons, List.foldl_cons, ih]
    | false =>
      rw [List.filter_cons_of_neg (by simp [hm]), List.foldl_cons, depthAfter_text hm, ih]

/-- The depth depends on the marks alone. -/
theorem depthOf_filter (ts : List Token) : depthOf (ts.filter Token.isMark) = depthOf ts :=
  foldl_depthAfter_filter 0 ts

/-! ## Levels -/

namespace Level

/-- Number of the braces open at a level. -/
def depth : Level → Nat
  | outside => 0
  | block _ => 1
  | nested _ _ depth => depth + 1

/-- A nested block has an open brace of its own. -/
def Valid : Level → Prop
  | nested _ _ depth => 1 ≤ depth
  | outside | block _ => True

theorem step_valid {level : Level} (h : level.Valid) (c : Clause) : (level.step c).1.Valid := by
  cases level with
  | outside => cases hm : c.mark <;> simp [step, hm, Valid]
  | block owner => cases hm : c.mark <;> simp [step, hm, Valid]
  | nested owner start depth =>
    cases hm : c.mark with
    | semicolon => simpa [step, hm] using h
    | openBrace => simp [step, hm, Valid]
    | closeBrace =>
      simp only [step, hm]
      split
      · trivial
      · simp only [Valid]; omega

/-- A clause takes the depth of its level to that behind its mark. -/
theorem step_depth {level : Level} (h : level.Valid) (c : Clause) :
    (level.step c).1.depth = depthAfter level.depth c.token := by
  cases level with
  | outside => cases hm : c.mark <;> simp [step, hm, depth, depthAfter, Clause.token]
  | block owner => cases hm : c.mark <;> simp [step, hm, depth, depthAfter, Clause.token]
  | nested owner start depth =>
    cases hm : c.mark with
    | semicolon => simp [step, hm, Level.depth, depthAfter, Clause.token]
    | openBrace => simp [step, hm, Level.depth, depthAfter, Clause.token]
    | closeBrace =>
      have h : 1 ≤ depth := h
      simp only [step, hm, depthAfter, Clause.token]
      split <;> simp only [Level.depth] <;> omega

/-- The level behind clauses. -/
def behind (level : Level) (cs : List Clause) : Level := cs.foldl (fun l c => (l.step c).1) level

theorem behind_depth {level : Level} (h : level.Valid) (cs : List Clause) :
    (level.behind cs).depth = (cs.map Clause.token).foldl depthAfter level.depth := by
  induction cs generalizing level with
  | nil => rfl
  | cons c cs ih =>
    rw [List.map_cons, List.foldl_cons, ← step_depth h]
    exact ih (step_valid h c)

/-- At depth zero, reading stands outside of all blocks. -/
theorem eq_outside {level : Level} (h : level.depth = 0) : level = outside := by
  cases level with
  | outside => rfl
  | block | nested => simp [depth] at h

/-- What clauses complete. -/
def completed (level : Level) : List Clause → List SheetItem
  | [] => []
  | c :: cs => (level.step c).2 ++ completed (level.step c).1 cs

theorem behind_cons {level level' : Level} {c : Clause} {items : List SheetItem}
    (h : level.step c = (level', items)) (cs : List Clause) :
    level.behind (c :: cs) = level'.behind cs := by
  rw [behind, List.foldl_cons, h]
  rfl

theorem completed_cons {level level' : Level} {c : Clause} {items : List SheetItem}
    (h : level.step c = (level', items)) (cs : List Clause) :
    level.completed (c :: cs) = items ++ level'.completed cs := by
  rw [completed, h]

end Level

/-- Reading goes on from the level that it has reached. -/
theorem itemsFrom_append (size : Nat) (last : Option Fragment) (level : Level)
    (cs ds : List Clause) :
    itemsFrom size last level (cs ++ ds) =
      level.completed cs ++ itemsFrom size last (level.behind cs) ds := by
  induction cs generalizing level with
  | nil => rfl
  | cons c cs ih =>
    rw [List.cons_append, itemsFrom, ih, Level.completed, List.append_assoc]
    rfl

end StyleServer
