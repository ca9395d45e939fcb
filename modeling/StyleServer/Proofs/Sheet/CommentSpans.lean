/-
  The comments of a text, and where they begin.

  * `Text.commentsIn`: the comments that begin in a span.
  * `Text.commentFree`, `Text.commentFree_iff`: none does.
  * `Text.comment_chars`: a comment begins with a slash.
-/
import StyleServer.Proofs.Sheet.ValueStart

namespace StyleServer

theorem commentsFrom_append (offset : Nat) (ps qs : List Piece) :
    commentsFrom offset (ps ++ qs) = commentsFrom offset ps ++
      commentsFrom (offset + Text.byteLength (Piece.allChars ps)) qs := by
  induction ps generalizing offset with
  | nil => rfl
  | cons p ps ih =>
    rw [List.cons_append, commentsFrom, ih, commentsFrom, List.append_assoc, Piece.allChars_cons,
      Text.byteLength_append, ← Nat.add_assoc]
    rfl

theorem mem_commentsFrom {offset : Nat} {ps : List Piece} {k : Span}
    (h : k ∈ commentsFrom offset ps) : ∃ before p behind, ps = before ++ p :: behind ∧
      p.isComment = true ∧ k.start = offset + Text.byteLength (Piece.allChars before) := by
  induction ps generalizing offset with
  | nil => simp [commentsFrom] at h
  | cons p ps ih =>
    rcases List.mem_append.1 h with h | h
    · refine ⟨[], p, ps, rfl, ?_⟩
      cases p with
      | blockComment cs | lineComment cs =>
        rw [List.mem_singleton.1 h]
        exact ⟨rfl, rfl⟩
      | blank | mark | quoted | word => simp [Piece.comment?] at h
    · obtain ⟨before, q, behind, rfl, hq, hk⟩ := ih h
      refine ⟨p :: before, q, behind, rfl, hq, ?_⟩
      rw [hk, Piece.allChars_cons, Text.byteLength_append, ← Nat.add_assoc]
      rfl

/-- Each comment among pieces is found where it begins. -/
theorem exists_mem_commentsFrom (before behind : List Piece) {p : Piece} (hp : p.isComment = true)
    (offset : Nat) : ∃ k ∈ commentsFrom offset (before ++ p :: behind),
      k.start = offset + Text.byteLength (Piece.allChars before) := by
  rw [commentsFrom_append, commentsFrom]
  cases p with
  | blockComment cs | lineComment cs =>
    exact ⟨_, List.mem_append_right _ (List.mem_append_left _ (List.mem_singleton_self _)), rfl⟩
  | blank | mark | quoted | word => simp [Piece.isComment] at hp

theorem CutsOff.comment_chars {place : Place} {c : Char} {cs rest : Text} {p : Piece}
    (h : CutsOff place c cs p rest) (hp : p.isComment = true) :
    ∃ inside, p.chars = '/' :: inside := by
  cases h with
  | block | line => exact ⟨_, rfl⟩
  | blank | mark | quoted | word => simp [Piece.isComment] at hp

namespace Text

/-- The comments of a text that begin in a span, as far as the span reaches.  A line comment
    stands without its line feed. -/
def commentsIn (text : Text) (span : Span) : List Span :=
  ((commentsFrom 0 text.pieces).filter fun k => span.covers k.start).map (Span.clip span.stop)

/-- No comment of a text begins in a span. -/
def commentFree (text : Text) (span : Span) : Bool := (text.commentsIn span).isEmpty

variable {text : Text}

theorem commentFree_iff {span : Span} : text.commentFree span = true ↔
    ∀ before p behind, text.pieces = before ++ p :: behind → p.isComment = true →
      span.covers (byteLength (Piece.allChars before)) = false := by
  simp only [commentFree, commentsIn, List.isEmpty_iff, List.map_eq_nil_iff,
    List.filter_eq_nil_iff, Bool.not_eq_true]
  constructor
  · intro h before p behind heq hp
    obtain ⟨k, hk, hstart⟩ := exists_mem_commentsFrom before behind hp 0
    rw [← heq] at hk
    rw [← Nat.zero_add (byteLength _), ← hstart]
    exact h k hk
  · intro h k hk
    obtain ⟨before, p, behind, heq, hp, hstart⟩ := mem_commentsFrom hk
    rw [hstart, Nat.zero_add]
    exact h before p behind heq hp

theorem comment_chars {before behind : List Piece} {p : Piece}
    (h : text.pieces = before ++ p :: behind) (hp : p.isComment = true) :
    ∃ inside, p.chars = '/' :: inside := by
  obtain ⟨c, cs, hcut⟩ := cutsOff_of_split h
  exact hcut.comment_chars hp

/-- Pieces that stand in a span without comments are no comments. -/
theorem isComment_eq_false {front ps behind : List Piece}
    (h : text.pieces = front ++ (ps ++ behind)) {span : Span}
    (hstart : span.start ≤ byteLength (Piece.allChars front))
    (hstop : byteLength (Piece.allChars (front ++ ps)) ≤ span.stop)
    (hfree : text.commentFree span = true) : ∀ p ∈ ps, p.isComment = false := by
  intro p hp
  obtain ⟨before, after, rfl⟩ := List.append_of_mem hp
  have hsplit : text.pieces = (front ++ before) ++ p :: (after ++ behind) := by rw [h]; simp
  refine Bool.eq_false_iff.2 fun hcomment => ?_
  have hcovers := commentFree_iff.1 hfree _ _ _ hsplit hcomment
  obtain ⟨c, cs, hcut⟩ := cutsOff_of_split hsplit
  have hpos := byteLength_pos hcut.chars_ne_nil
  refine absurd hcovers (Bool.not_eq_false _ ▸ Span.covers_iff.2 ⟨?_, ?_⟩)
  · rw [Piece.allChars_append, byteLength_append]
    omega
  · simp only [Piece.allChars_append, Piece.allChars_cons, byteLength_append] at hstop ⊢
    omega

end Text

end StyleServer
