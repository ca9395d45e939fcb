/-
  What is found from the left.

  A search goes through a text from an offset on and takes what begins there first; then it goes
  on behind the end of that.

  * `Leftmost`: what such a search finds, in order.
  * `Leftmost.unique`: there is one way to find it.
  * `Leftmost.covers`: what is passed over begins inside of something that is found.
-/
import StyleServer.Text.Span

namespace StyleServer

variable {α : Type}

/-- What is found from an offset on, among all that occurs: each is the first that begins at or
    behind the end of the one before. -/
inductive Leftmost (occurs : α → Prop) (span : α → Span) : Nat → List α → Prop where
  | none {offset : Nat} (hnone : ∀ x, occurs x → (span x).start < offset) :
      Leftmost occurs span offset []
  | next {offset : Nat} {x : α} {found : List α} (hx : occurs x) (hle : offset ≤ (span x).start)
      (hfirst : ∀ y, occurs y → offset ≤ (span y).start → (span x).start ≤ (span y).start)
      (hrest : Leftmost occurs span (span x).stop found) : Leftmost occurs span offset (x :: found)

namespace Leftmost

variable {occurs : α → Prop} {span : α → Span} {offset : Nat} {found : List α}

theorem occurs_of_mem (h : Leftmost occurs span offset found) {x : α} (hx : x ∈ found) :
    occurs x := by
  induction h with
  | none => cases hx
  | next hy hle hfirst hrest ih =>
    rcases List.mem_cons.1 hx with rfl | hx
    · exact hy
    · exact ih hx

/-- There is one way to find what does not begin where something else does. -/
theorem unique (hstart : ∀ x y, occurs x → occurs y → (span x).start = (span y).start → x = y)
    (h : Leftmost occurs span offset found) {found' : List α}
    (h' : Leftmost occurs span offset found') : found = found' := by
  induction h generalizing found' with
  | none hnone =>
    cases h' with
    | none => rfl
    | next hy hle => exact absurd hle (Nat.not_le.2 (hnone _ hy))
  | next hx hle hfirst hrest ih =>
    cases h' with
    | none hnone => exact absurd hle (Nat.not_le.2 (hnone _ hx))
    | next hy hle' hfirst' hrest' =>
      obtain rfl := hstart _ _ hx hy (Nat.le_antisymm (hfirst _ hy hle') (hfirst' _ hx hle))
      rw [ih hrest']

/-- The search may begin earlier, where nothing begins in between. -/
theorem earlier (h : Leftmost occurs span offset found) {offset' : Nat} (hle : offset' ≤ offset)
    (hgap : ∀ x, occurs x → offset' ≤ (span x).start → offset ≤ (span x).start) :
    Leftmost occurs span offset' found := by
  cases h with
  | none hnone =>
    refine .none fun x hx => Nat.lt_of_not_le fun hstart => ?_
    exact Nat.not_le.2 (hnone x hx) (hgap x hx hstart)
  | next hx hstart hfirst hrest =>
    exact .next hx (Nat.le_trans hle hstart) (fun y hy h => hfirst y hy (hgap y hy h)) hrest

/-- **Nothing is skipped:** all that occurs begins inside of something that is found. -/
theorem covers (h : Leftmost occurs span offset found) {y : α} (hy : occurs y)
    (hle : offset ≤ (span y).start) : ∃ x ∈ found, (span x).covers (span y).start = true := by
  induction h with
  | none hnone => exact absurd hle (Nat.not_le.2 (hnone y hy))
  | @next offset x found hx hstart hfirst hrest ih =>
    by_cases hlt : (span y).start < (span x).stop
    · exact ⟨x, List.mem_cons_self, Span.covers_iff.2 ⟨hfirst y hy hle, hlt⟩⟩
    · obtain ⟨z, hz, hcovers⟩ := ih (Nat.le_of_not_lt hlt)
      exact ⟨z, List.mem_cons_of_mem _ hz, hcovers⟩

end Leftmost

end StyleServer
