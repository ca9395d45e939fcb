/-
  The order of a search.

  The listed documents are sorted by their texts, and then only repetitions that stand side
  by side are left out.  That is enough, because a URL is known by its text, and so sorting
  brings the same URLs together.

  * `Increasing`: by a key, and so without repetitions.  The members of such a list determine
    it (`Increasing.eq`).
  * `searchOrder_increasing`, `mem_searchOrder`: the order of a search.  Neither order nor
    repetitions of a listing matter to it (`searchOrder_congr`).
  * `sortedDistinct_increasing`, `mem_sortedDistinct`: the same of names.
-/
import StyleServer.Search.Find
import Mathlib.Data.List.Nodup
import Mathlib.Data.List.Pairwise
import Mathlib.Data.String.Basic
import Mathlib.Order.Basic

namespace StyleServer

section
variable {α : Type}

/-! ## Repetitions side by side -/

theorem eraseRepsBy_loop_eq (r : α → α → Bool) (a : α) (l acc : List α) :
    List.eraseRepsBy.loop r a l acc = acc.reverse ++ List.eraseRepsBy r (a :: l) := by
  induction l generalizing a acc with
  | nil => simp [List.eraseRepsBy, List.eraseRepsBy.loop]
  | cons b l ih =>
    simp only [List.eraseRepsBy, List.eraseRepsBy.loop]
    split
    · exact ih a acc
    · rw [ih b (a :: acc), ih b [a]]
      simp

theorem eraseReps_cons_cons [DecidableEq α] (a b : α) (l : List α) :
    (a :: b :: l).eraseReps = if a = b then (a :: l).eraseReps else a :: (b :: l).eraseReps := by
  simp only [List.eraseReps, List.eraseRepsBy, List.eraseRepsBy.loop]
  by_cases h : a = b
  · rw [if_pos h, beq_iff_eq.2 h]
  · rw [if_neg h, beq_eq_false_iff_ne.2 h]
    exact eraseRepsBy_loop_eq _ b l [a]

/-- Induction along the runs of equal members. -/
@[elab_as_elim]
theorem eraseReps_induction {motive : List α → Prop} (l : List α) (nil : motive [])
    (single : ∀ a, motive [a])
    (cons : ∀ a b l, motive (a :: l) → motive (b :: l) → motive (a :: b :: l)) : motive l := by
  cases l with
  | nil => exact nil
  | cons a l =>
    induction l generalizing a with
    | nil => exact single a
    | cons b l ih => exact cons a b l (ih a) (ih b)

theorem mem_eraseReps [DecidableEq α] {l : List α} {x : α} : x ∈ l.eraseReps ↔ x ∈ l := by
  induction l using eraseReps_induction with
  | nil => simp [List.eraseReps, List.eraseRepsBy]
  | single a => simp [List.eraseReps, List.eraseRepsBy, List.eraseRepsBy.loop]
  | cons a b l iha ihb =>
    rw [eraseReps_cons_cons]
    split
    · next h => rw [iha, h]; simp
    · rw [List.mem_cons, ihb, List.mem_cons (l := b :: l)]

/-- In a sorted list the repetitions stand side by side. -/
theorem pairwise_eraseReps [DecidableEq α] {R : α → α → Prop} {l : List α} (h : l.Pairwise R)
    (hanti : ∀ a ∈ l, ∀ b ∈ l, R a b → R b a → a = b) :
    l.eraseReps.Pairwise fun a b => R a b ∧ a ≠ b := by
  induction l using eraseReps_induction with
  | nil => simp [List.eraseReps, List.eraseRepsBy]
  | single a => simp [List.eraseReps, List.eraseRepsBy, List.eraseRepsBy.loop]
  | cons a b l iha ihb =>
    obtain ⟨ha, hbl⟩ := List.pairwise_cons.1 h
    obtain ⟨hb, hl⟩ := List.pairwise_cons.1 hbl
    rw [eraseReps_cons_cons]
    split
    · refine iha (List.pairwise_cons.2 ⟨fun x hx => ha x (List.mem_cons_of_mem _ hx), hl⟩) ?_
      exact fun x hx y hy => hanti x (by simp at hx ⊢; tauto) y (by simp at hy ⊢; tauto)
    · next hne =>
      refine List.pairwise_cons.2 ⟨fun x hx => ?_, ihb hbl fun x hx y hy =>
        hanti x (List.mem_cons_of_mem _ hx) y (List.mem_cons_of_mem _ hy)⟩
      rw [mem_eraseReps] at hx
      refine ⟨ha x hx, ?_⟩
      rintro rfl
      -- `b` stands between two occurrences of `a`, and so it is `a`.
      rcases List.mem_cons.1 hx with hab | hal
      · exact hne hab
      · exact hne (hanti a (by simp) b (by simp) (ha b (by simp)) (hb a hal))

/-! ## Increasing lists -/

/-- The keys of the members increase. -/
def Increasing (key : α → String) (l : List α) : Prop := l.Pairwise fun a b => key a < key b

theorem Increasing.nodup {key : α → String} {l : List α} (h : Increasing key l) : l.Nodup :=
  h.imp fun hlt heq => absurd hlt (by rw [heq]; exact lt_irrefl _)

/-- An increasing list is determined by its members. -/
theorem Increasing.eq {key : α → String} {l l' : List α} (h : Increasing key l)
    (h' : Increasing key l') (hmem : ∀ a, a ∈ l ↔ a ∈ l') : l = l' := by
  have hperm : l.Perm l' := (List.perm_ext_iff_of_nodup h.nodup h'.nodup).2 hmem
  exact hperm.eq_of_pairwise (fun _ _ _ _ hab hba => absurd hba (lt_asymm hab)) h h'

theorem Increasing.filter {key : α → String} {l : List α} (h : Increasing key l) (p : α → Bool) :
    Increasing key (l.filter p) := List.Pairwise.filter p h

/-- Sorted by their keys, without repetitions side by side, the members increase where the
    keys tell them apart. -/
theorem increasing_eraseReps [DecidableEq α] {key : α → String} {le : α → α → Bool}
    (hkey : ∀ a b, key a = key b → a = b) (hle : ∀ a b, le a b = true ↔ key a ≤ key b)
    (l : List α) : Increasing key (l.mergeSort le).eraseReps := by
  have hsorted : (l.mergeSort le).Pairwise fun a b => key a ≤ key b := by
    refine (List.pairwise_mergeSort ?_ ?_ l).imp (hle _ _).1
    · intro a b c hab hbc
      rw [hle] at *
      exact le_trans hab hbc
    · intro a b
      rw [Bool.or_eq_true, hle, hle]
      exact le_total ..
  refine (pairwise_eraseReps hsorted fun a _ b _ hab hba => ?_).imp fun ⟨hab, hne⟩ => ?_
  · exact hkey a b (le_antisymm hab hba)
  · exact lt_of_le_of_ne hab fun heq => hne (hkey _ _ heq)

end

/-! ## URLs -/

theorem mem_searchOrder {skip : Option Url} {listed : List Url} {u : Url} :
    u ∈ searchOrder skip listed ↔ u ∈ listed ∧ some u ≠ skip := by
  simp [searchOrder, mem_eraseReps]

/-- A URL is known by its text, and so sorting brings the same URLs together. -/
theorem searchOrder_increasing (skip : Option Url) (listed : List Url) :
    Increasing (fun u : Url => u.text) (searchOrder skip listed) :=
  increasing_eraseReps (fun _ _ => Url.eq_of_text) (fun _ _ => decide_eq_true_iff) _

/-- The order of a search depends on what is listed, not on where and how often. -/
theorem searchOrder_congr {listed listed' : List Url} (h : ∀ u, u ∈ listed' ↔ u ∈ listed)
    (skip : Option Url) : searchOrder skip listed' = searchOrder skip listed := by
  refine (searchOrder_increasing skip listed').eq (searchOrder_increasing skip listed) fun u => ?_
  rw [mem_searchOrder, mem_searchOrder, h]

/-! ## Names -/

theorem mem_sortedDistinct {names : List String} {name : String} :
    name ∈ sortedDistinct names ↔ name ∈ names := by
  simp [sortedDistinct, mem_eraseReps]

theorem sortedDistinct_increasing (names : List String) :
    (sortedDistinct names).Pairwise (· < ·) := by
  have h : Increasing id (sortedDistinct names) :=
    increasing_eraseReps (fun _ _ => id) (fun _ _ => decide_eq_true_iff) names
  exact h

end StyleServer
