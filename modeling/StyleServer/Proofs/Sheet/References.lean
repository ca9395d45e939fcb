/-
  The search for references.

  * `referenceAt?_eq_some_iff`: what a reference is, character by character.
  * `referencesFrom`: the references of a text with all that they take up, from `var` to the
    end of the name.
  * `referencesFrom_append`: where no reference reaches over a border, the references of a text
    are those on either side of it.
  * `names_spacedFrom`: the names do not depend on which blanks stand between words.
-/
import StyleServer.Proofs.Sheet.Statement

namespace StyleServer

/-- What a run leaves begins with no character of the run. -/
theorem head?_dropWhile {p : Char → Bool} {cs : Text} :
    ∀ c ∈ (cs.dropWhile p).head?, p c = false := by
  intro c hc
  have hnot := List.head?_dropWhile_not p cs
  rw [hc] at hnot
  simpa using hnot

/-! ## One reference -/

/-- What opens a reference: `var` in any case and a parenthesis, with blanks behind each. -/
inductive IsOpening : Text → Prop where
  | mk {v a r : Char} {before behind : Text}
      (hword : v.toLower = 'v' ∧ a.toLower = 'a' ∧ r.toLower = 'r')
      (hbefore : ∀ c ∈ before, isBlank c = true) (hbehind : ∀ c ∈ behind, isBlank c = true) :
      IsOpening (v :: a :: r :: (before ++ '(' :: behind))

/-- Two dashes, and at least one character behind them. -/
inductive IsVariableName : Text → Prop where
  | mk {chars : Text} (hne : chars ≠ []) (h : ∀ c ∈ chars, isReferenceChar c = true) :
      IsVariableName ('-' :: '-' :: chars)

theorem referenceOpening?_eq_some {text opening rest : Text}
    (h : referenceOpening? text = some (opening, rest)) :
    text = opening ++ rest ∧ IsOpening opening := by
  refine ⟨referenceOpening?_append h, ?_⟩
  unfold referenceOpening? at h
  split at h
  · next v a r cs =>
    obtain ⟨hword, h⟩ := Option.ite_none_right_eq_some.1 h
    split at h
    · simp only [Option.some.injEq, Prod.mk.injEq] at h
      rw [← h.1]
      have hblank : ∀ text : Text, ∀ c ∈ text.takeWhile isBlank, isBlank c = true :=
        fun text => List.all_eq_true.1 List.all_takeWhile
      simpa using IsOpening.mk hword (hblank cs) (hblank _)
    · simp at h
  · simp at h

theorem IsOpening.referenceOpening?_eq {opening rest : Text} (h : IsOpening opening)
    (hrest : ∀ c ∈ rest.head?, isBlank c = false) :
    referenceOpening? (opening ++ rest) = some (opening, rest) := by
  cases h with
  | @mk v a r before behind hword hbefore hbehind =>
    have hparen : ∀ c ∈ ('(' :: (behind ++ rest)).head?, isBlank c = false := by
      rintro c ⟨⟩
      decide
    have htext : v :: a :: r :: (before ++ '(' :: behind) ++ rest =
        v :: a :: r :: (before ++ '(' :: (behind ++ rest)) := by simp
    rw [htext, referenceOpening?, if_pos hword, dropWhile_stop hbefore hparen]
    simp only [takeWhile_stop hbefore hparen, takeWhile_stop hbehind hrest,
      dropWhile_stop hbehind hrest]
    simp

/-- **A reference** is an opening and a name, as long as it can be. -/
theorem referenceAt?_eq_some_iff {text opening name rest : Text} :
    referenceAt? text = some (opening, name, rest) ↔ text = opening ++ (name ++ rest) ∧
      IsOpening opening ∧ IsVariableName name ∧ ∀ c ∈ rest.head?, isReferenceChar c = false := by
  constructor
  · intro h
    have htext := referenceAt?_append h
    unfold referenceAt? at h
    split at h
    · next inside hopening =>
      obtain ⟨hne, h⟩ := Option.ite_none_left_eq_some.1 h
      simp only [Option.some.injEq, Prod.mk.injEq] at h
      obtain ⟨rfl, rfl, rfl⟩ := h
      refine ⟨by simpa using htext, (referenceOpening?_eq_some hopening).2,
        .mk (by simpa using hne) (List.all_eq_true.1 List.all_takeWhile), head?_dropWhile⟩
    · simp at h
  · rintro ⟨rfl, hopening, @⟨chars, hne, hname⟩, hrest⟩
    have hdash : ∀ c ∈ ('-' :: '-' :: (chars ++ rest)).head?, isBlank c = false := by
      rintro c ⟨⟩
      decide
    rw [List.cons_append, List.cons_append, referenceAt?, hopening.referenceOpening?_eq hdash]
    simp only [takeWhile_stop hname hrest, dropWhile_stop hname hrest]
    rw [if_neg (by simpa using hne)]

/-- A reference that ends in the front of a text is one of the front. -/
theorem referenceAt?_of_append {text after opening name rest : Text}
    (h : referenceAt? (text ++ after) = some (opening, name, rest ++ after)) :
    referenceAt? text = some (opening, name, rest) := by
  obtain ⟨htext, hopening, hname, hrest⟩ := referenceAt?_eq_some_iff.1 h
  refine referenceAt?_eq_some_iff.2 ⟨?_, hopening, hname, fun c hc => hrest c ?_⟩
  · rw [← List.append_assoc, ← List.append_assoc] at htext
    rw [List.append_cancel_right htext, List.append_assoc]
  · rw [List.head?_append, Option.mem_def.1 hc]
    rfl

/-- More text makes a name longer, or leaves it as it is. -/
theorem referenceAt?_append_right {text : Text} (h : referenceAt? text ≠ none) (after : Text) :
    referenceAt? (text ++ after) ≠ none := by
  obtain ⟨⟨opening, name, rest⟩, h⟩ := Option.ne_none_iff_exists'.1 h
  obtain ⟨rfl, hopening, hname, hrest⟩ := referenceAt?_eq_some_iff.1 h
  cases rest with
  | cons c rest =>
    refine Option.ne_none_iff_exists'.2 ⟨(opening, name, c :: rest ++ after), ?_⟩
    exact referenceAt?_eq_some_iff.2 ⟨by simp, hopening, hname, hrest⟩
  | nil =>
    obtain @⟨chars, hne, hchars⟩ := hname
    refine Option.ne_none_iff_exists'.2 ⟨(opening, '-' :: '-' :: (chars ++
      after.takeWhile isReferenceChar), after.dropWhile isReferenceChar), ?_⟩
    refine referenceAt?_eq_some_iff.2 ⟨by simp, hopening, .mk (by simp [hne]) ?_, head?_dropWhile⟩
    exact List.forall_mem_append.2 ⟨hchars, List.all_eq_true.1 List.all_takeWhile⟩

/-! ## All references -/

/-- A reference with all that it takes up, from `var` to the end of the name. -/
structure Reference where
  whole : Span
  ref : VariableRef

/-- A word character stands at the end of a text, or before it when it is empty. -/
def behindWord (inWord : Bool) (text : Text) : Bool := (text.getLast?.map isWordChar).getD inWord

/-- The references in a text at a byte offset, with all that they take up. -/
def referencesFrom (inWord : Bool) (offset : Nat) (text : Text) : List Reference :=
  match text with
  | [] => []
  | c :: cs =>
    match _h : if inWord then none else referenceAt? (c :: cs) with
    | some (opening, name, rest) =>
      let start := offset + Text.byteLength opening
      let stop := start + Text.byteLength name
      ⟨⟨offset, stop⟩, ⟨String.ofList name, ⟨start, stop⟩⟩⟩ ::
        referencesFrom (behindWord false name) stop rest
    | none => referencesFrom (isWordChar c) (offset + c.utf8Size) cs
termination_by text.length
decreasing_by
  · split at _h
    · simp at _h
    · have := congrArg List.length (referenceAt?_append _h)
      have := referenceAt?_name_length _h
      simp only [List.length_append, List.length_cons] at *
      omega
  · simp

section
variable {inWord : Bool} {offset : Nat} {c : Char} {cs : Text}

theorem referencesFrom_some {opening name rest : Text}
    (h : (if inWord = true then none else referenceAt? (c :: cs)) = some (opening, name, rest)) :
    referencesFrom inWord offset (c :: cs) =
      ⟨⟨offset, offset + opening.byteLength + name.byteLength⟩, ⟨String.ofList name,
          ⟨offset + opening.byteLength, offset + opening.byteLength + name.byteLength⟩⟩⟩ ::
        referencesFrom (behindWord false name) (offset + opening.byteLength + name.byteLength)
          rest := by
  rw [referencesFrom]
  split
  · next heq => rw [h] at heq; cases heq; rfl
  · next heq => rw [h] at heq; cases heq

theorem referencesFrom_none
    (h : (if inWord = true then none else referenceAt? (c :: cs)) = none) :
    referencesFrom inWord offset (c :: cs) =
      referencesFrom (isWordChar c) (offset + c.utf8Size) cs := by
  rw [referencesFrom]
  split
  · next heq => rw [h] at heq; cases heq
  · rfl

end

/-- The references are those of the value. -/
theorem map_ref_referencesFrom (inWord : Bool) (offset : Nat) (text : Text) :
    (referencesFrom inWord offset text).map Reference.ref =
      variableRefsFrom inWord offset text := by
  induction inWord, offset, text using variableRefsFrom.induct with
  | case1 => simp [referencesFrom, variableRefsFrom]
  | case2 inWord offset c cs opening name rest h start stop ih =>
    simp only [dite_eq_ite] at h
    rw [referencesFrom_some h, variableRefsFrom_some h, List.map_cons]
    exact congrArg _ ih
  | case3 inWord offset c cs h ih =>
    simp only [dite_eq_ite] at h
    rw [referencesFrom_none h, variableRefsFrom_none h, ih]

theorem behindWord_append (inWord : Bool) (a b : Text) :
    behindWord inWord (a ++ b) = behindWord (behindWord inWord a) b := by
  rw [behindWord, behindWord, behindWord, List.getLast?_append]
  cases b.getLast? with
  | none => simp
  | some c => simp

theorem behindWord_of_ne_nil {text : Text} (h : text ≠ []) (inWord inWord' : Bool) :
    behindWord inWord text = behindWord inWord' text := by
  rw [behindWord, behindWord, List.getLast?_eq_some_getLast h]
  rfl

/-- What stands before a text matters only where a reference begins. -/
theorem referencesFrom_of_none {text : Text} (h : referenceAt? text = none) (inWord : Bool)
    (offset : Nat) : referencesFrom inWord offset text = referencesFrom false offset text := by
  cases text with
  | nil => simp [referencesFrom]
  | cons c cs =>
    rw [referencesFrom_none (by simp [h]), referencesFrom_none (by simp [h])]

/-- The span goes over an offset. -/
def Span.Crosses (s : Span) (offset : Nat) : Prop := s.start < offset ∧ offset < s.stop

instance (s : Span) (offset : Nat) : Decidable (s.Crosses offset) :=
  inferInstanceAs (Decidable (_ ∧ _))

/-- **Where no reference crosses a border,** the references of a text are those on either side
    of it. -/
theorem referencesFrom_append {inWord : Bool} {offset : Nat} {a b : Text}
    (h : ∀ m ∈ referencesFrom inWord offset (a ++ b), ¬ m.whole.Crosses (offset + a.byteLength)) :
    referencesFrom inWord offset (a ++ b) = referencesFrom inWord offset a ++
      referencesFrom (behindWord inWord a) (offset + a.byteLength) b := by
  induction hn : a.length using Nat.strongRecOn generalizing inWord offset a with
  | ind n ih =>
  cases a with
  | nil => simp [referencesFrom, behindWord]
  | cons c cs =>
    rw [List.cons_append] at h ⊢
    rw [List.length_cons] at hn
    cases hat : (if inWord = true then none else referenceAt? (c :: (cs ++ b))) with
    | some found =>
      obtain ⟨opening, name, rest⟩ := found
      obtain ⟨hword, hat'⟩ := Option.ite_none_left_eq_some.1 hat
      have hpos := Text.byteLength_pos (List.cons_ne_nil c cs)
      rw [referencesFrom_some hat] at h ⊢
      have hinside : Text.byteLength (opening ++ name) ≤ Text.byteLength (c :: cs) := by
        have := h _ List.mem_cons_self
        rw [Span.Crosses] at this
        rw [Text.byteLength_append]
        dsimp only at this
        omega
      -- The reference is one of the first part, and the search goes on in it.
      have hsplit : opening ++ name ++ rest = c :: cs ++ b := by
        rw [List.cons_append, referenceAt?_append hat']
      obtain ⟨m, hm, rfl⟩ := Text.append_split hsplit hinside
      have hfirst : (if inWord = true then none else referenceAt? (c :: cs)) =
          some (opening, name, m) := by
        rw [if_neg hword]
        exact referenceAt?_of_append hat'
      have hlength : m.length < n := by
        have := congrArg List.length hm
        have := referenceAt?_name_length hat'
        simp only [List.length_append, List.length_cons] at *
        omega
      have hname : name ≠ [] := by
        rintro rfl
        exact absurd (referenceAt?_name_length hat') (by simp)
      have hborder : offset + opening.byteLength + name.byteLength + m.byteLength =
          offset + Text.byteLength (c :: cs) := by
        rw [hm, Text.byteLength_append, Text.byteLength_append]
        omega
      have hlast : behindWord inWord (c :: cs) = behindWord (behindWord false name) m := by
        rw [hm, behindWord_append, behindWord_append, behindWord_of_ne_nil hname]
      rw [referencesFrom_some hfirst, ih m.length hlength (fun r hr => ?_) rfl, hborder, hlast]
      · rfl
      · rw [hborder]
        exact h r (List.mem_cons_of_mem _ hr)
    | none =>
      have hfirst : (if inWord = true then none else referenceAt? (c :: cs)) = none := by
        split
        · rfl
        · next hword =>
          rw [if_neg hword] at hat
          by_contra hsome
          exact referenceAt?_append_right hsome b hat
      have hborder : offset + c.utf8Size + Text.byteLength cs =
          offset + Text.byteLength (c :: cs) := by
        rw [Text.byteLength_cons, Nat.add_assoc]
      rw [referencesFrom_none hat] at h ⊢
      rw [referencesFrom_none hfirst, ih cs.length (by omega) (fun r hr => ?_) rfl, hborder]
      · rw [show c :: cs = [c] ++ cs from rfl, behindWord_append]
        rfl
      · rw [hborder]
        exact h r hr

/-! ## Blanks between words -/

/-- One space behind each word of a text, and no other blanks; `inWord` says that the text goes
    on inside of a word. -/
def spacedFrom (inWord : Bool) : Text → Text
  | [] => if inWord then [' '] else []
  | c :: cs =>
    if isBlank c then (if inWord then [' '] else []) ++ spacedFrom false cs
    else c :: spacedFrom true cs

section
variable {c : Char} (inWord : Bool)

theorem spacedFrom_blank (hc : isBlank c = true) (cs : Text) :
    spacedFrom inWord (c :: cs) = spacedFrom inWord [] ++ spacedFrom false cs := by
  simp [spacedFrom, hc]

theorem spacedFrom_char (hc : isBlank c = false) (cs : Text) :
    spacedFrom inWord (c :: cs) = c :: spacedFrom true cs := by
  simp [spacedFrom, hc]

/-- Words stand apart on both sides of a blank. -/
theorem spacedFrom_append_blank (a : Text) (hc : isBlank c = true) (b : Text) :
    spacedFrom inWord (a ++ c :: b) = spacedFrom inWord a ++ spacedFrom false b := by
  induction a generalizing inWord with
  | nil => exact spacedFrom_blank inWord hc b
  | cons d a ih =>
    rw [List.cons_append, spacedFrom, spacedFrom, ih, ih]
    split
    · rw [List.append_assoc]
    · rfl

end

theorem spacedFrom_blanks {blanks : Text} (h : ∀ c ∈ blanks, isBlank c = true) :
    spacedFrom false blanks = [] := by
  induction blanks with
  | nil => rfl
  | cons c blanks ih =>
    rw [spacedFrom_blank _ (h c List.mem_cons_self),
      ih fun d hd => h d (List.mem_cons_of_mem _ hd)]
    rfl

/-- Blanks at the ends do not count. -/
theorem spacedFrom_trimmed {before after : Text} (hb : ∀ c ∈ before, isBlank c = true)
    (ha : ∀ c ∈ after, isBlank c = true) (text : Text) :
    spacedFrom false (before ++ (text ++ after)) = spacedFrom false text := by
  have hafter : spacedFrom false (text ++ after) = spacedFrom false text := by
    cases after with
    | nil => rw [List.append_nil]
    | cons c after =>
      rw [spacedFrom_append_blank _ _ (ha c List.mem_cons_self),
        spacedFrom_blanks fun d hd => ha d (List.mem_cons_of_mem _ hd), List.append_nil]
  rw [← hafter]
  induction before with
  | nil => rfl
  | cons c before ih =>
    rw [List.cons_append, spacedFrom_blank _ (hb c List.mem_cons_self)]
    exact ih fun d hd => hb d (List.mem_cons_of_mem _ hd)

theorem isBlank_spacedFrom_nil (inWord : Bool) : ∀ c ∈ spacedFrom inWord [], isBlank c = true := by
  cases inWord with
  | false => simp [spacedFrom]
  | true =>
    intro c hc
    rw [List.mem_singleton.1 hc]
    decide

theorem dropWhile_spacedFrom (inWord : Bool) (text : Text) :
    (spacedFrom inWord text).dropWhile isBlank = spacedFrom false (text.dropWhile isBlank) := by
  induction text generalizing inWord with
  | nil => cases inWord <;> decide
  | cons c cs ih =>
    cases hc : isBlank c with
    | true =>
      rw [spacedFrom_blank _ hc, List.dropWhile_append_of_pos (isBlank_spacedFrom_nil inWord), ih,
        List.dropWhile_cons_of_pos hc]
    | false =>
      have hc' : ¬ isBlank c = true := by simp [hc]
      rw [spacedFrom_char _ hc, List.dropWhile_cons_of_neg hc', List.dropWhile_cons_of_neg hc',
        spacedFrom_char _ hc]

/-- A name ends at the same place. -/
theorem name_spacedFrom (text : Text) :
    (spacedFrom true text).takeWhile isReferenceChar = text.takeWhile isReferenceChar ∧
      (spacedFrom true text).dropWhile isReferenceChar =
        spacedFrom true (text.dropWhile isReferenceChar) := by
  induction text with
  | nil => decide
  | cons c cs ih =>
    cases hc : isBlank c with
    | true =>
      have hend : isReferenceChar c = false := by simp [isReferenceChar, hc]
      have hspace : isReferenceChar ' ' = false := by decide
      have hspaced : spacedFrom true (c :: cs) = ' ' :: spacedFrom false cs :=
        spacedFrom_blank true hc cs
      simp [hspaced, hend, hspace]
    | false =>
      rw [spacedFrom_char _ hc]
      by_cases hname : isReferenceChar c = true
      · simp [hname, ih]
      · simp [hname, spacedFrom_char _ hc]

/-- First and last code points of the ranges of blanks. -/
def blankRanges : List (Nat × Nat) := [(9, 13), (0x20, 0x20), (0x85, 0x85), (0xA0, 0xA0),
  (0x1680, 0x1680), (0x2000, 0x200A), (0x2028, 0x2029), (0x202F, 0x202F), (0x205F, 0x205F),
  (0x3000, 0x3000)]

theorem exists_blankRange {c : Char} (h : isBlank c = true) :
    ∃ b ∈ blankRanges, b.1 ≤ c.toNat ∧ c.toNat ≤ b.2 := by
  simp only [isBlank, Bool.or_eq_true, Bool.and_eq_true, decide_eq_true_eq, beq_iff_eq] at h
  simp only [blankRanges, List.exists_mem_cons_iff, List.not_mem_nil, false_and, exists_false,
    or_false]
  omega

theorem isWordChar_of_isBlank {c : Char} (h : isBlank c = true) : isWordChar c = false := by
  have hapart : (wordRanges.all fun w => blankRanges.all fun b => w.2 < b.1 || b.2 < w.1) =
      true := by
    decide +kernel
  obtain ⟨b, hb, hle⟩ := exists_blankRange h
  refine List.any_eq_false.2 fun w hw hc => ?_
  have hout := List.all_eq_true.1 (List.all_eq_true.1 hapart w hw) b hb
  simp only [Bool.or_eq_true, Bool.and_eq_true, decide_eq_true_eq] at hout hc
  omega

theorem toLower_of_isBlank {c : Char} (h : isBlank c = true) : c.toLower = c := by
  simp only [isBlank, Bool.or_eq_true, Bool.and_eq_true, decide_eq_true_eq, beq_iff_eq] at h
  unfold Char.toLower
  rw [dif_neg]
  simp only [UInt32.le_iff_toNat_le, ge_iff_le]
  intro ⟨h1, h2⟩
  simp at h1 h2
  omega

theorem toLower_ne_of_isBlank {c : Char} (h : isBlank c = true) :
    c.toLower ≠ 'v' ∧ c.toLower ≠ 'a' ∧ c.toLower ≠ 'r' := by
  rw [toLower_of_isBlank h]
  refine ⟨?_, ?_, ?_⟩ <;> rintro rfl <;> exact absurd h (by decide)

section
variable {v a r : Char} {cs : Text}

theorem referenceOpening?_second (h : a.toLower ≠ 'a') :
    referenceOpening? (v :: a :: cs) = none := by
  cases cs with
  | nil => rfl
  | cons r cs => simp [referenceOpening?, h]

theorem referenceOpening?_third (h : r.toLower ≠ 'r') :
    referenceOpening? (v :: a :: r :: cs) = none := by
  simp [referenceOpening?, h]

end

/-- What an opening leaves begins with no blank. -/
theorem referenceOpening?_rest {text opening rest : Text}
    (h : referenceOpening? text = some (opening, rest)) : ∀ c ∈ rest.head?, isBlank c = false := by
  unfold referenceOpening? at h
  split at h
  · obtain ⟨-, h⟩ := Option.ite_none_right_eq_some.1 h
    split at h
    · simp only [Option.some.injEq, Prod.mk.injEq] at h
      rw [← h.2]
      exact head?_dropWhile
    · simp at h
  · simp at h

theorem referenceOpening?_spacedFrom (v : Char) (cs : Text) :
    (referenceOpening? (v :: spacedFrom true cs)).map Prod.snd =
      (referenceOpening? (v :: cs)).map fun found => spacedFrom false found.2 := by
  -- With a blank among the first three characters there is no opening on either side.
  match cs with
  | [] => rfl
  | a :: cs =>
    cases ha : isBlank a with
    | true =>
      rw [referenceOpening?_second (toLower_ne_of_isBlank ha).2.1, spacedFrom_blank _ ha]
      exact congrArg _ (referenceOpening?_second (by decide))
    | false =>
      rw [spacedFrom_char _ ha]
      match cs with
      | [] => exact congrArg _ (referenceOpening?_third (by decide))
      | r :: cs =>
        cases hr : isBlank r with
        | true =>
          rw [referenceOpening?_third (toLower_ne_of_isBlank hr).2.2, spacedFrom_blank _ hr]
          exact congrArg _ (referenceOpening?_third (by decide))
        | false =>
          rw [spacedFrom_char _ hr, referenceOpening?, referenceOpening?]
          by_cases hword : v.toLower = 'v' ∧ a.toLower = 'a' ∧ r.toLower = 'r'
          · rw [if_pos hword, if_pos hword, dropWhile_spacedFrom]
            cases hdrop : cs.dropWhile isBlank with
            | nil => rfl
            | cons d inside =>
              have hd : isBlank d = false := head?_dropWhile d (by rw [hdrop]; rfl)
              rw [spacedFrom_char _ hd]
              by_cases hparen : d = '('
              · subst hparen
                exact congrArg some (dropWhile_spacedFrom true inside)
              · simp [hparen]
          · rw [if_neg hword, if_neg hword]
            rfl

/-- The name at the front of a text, and the rest. -/
def nameAt? : Text → Option (Text × Text)
  | '-' :: '-' :: inside =>
    if (inside.takeWhile isReferenceChar).isEmpty then none
    else some ('-' :: '-' :: inside.takeWhile isReferenceChar, inside.dropWhile isReferenceChar)
  | _ => none

theorem map_snd_referenceAt? (text : Text) :
    (referenceAt? text).map Prod.snd = ((referenceOpening? text).map Prod.snd).bind nameAt? := by
  unfold referenceAt? nameAt?
  split
  · next heq =>
    rw [heq]
    simp only [Option.map_some, Option.bind_some]
    split <;> rfl
  · next hne =>
    cases hopening : referenceOpening? text with
    | none => rfl
    | some found =>
      simp only [Option.map_some, Option.bind_some]
      split
      · next inside heq => exact (hne found.1 inside (by rw [hopening, ← heq])).elim
      · rfl

theorem nameAt?_spacedFrom {text : Text} (h : ∀ c ∈ text.head?, isBlank c = false) :
    nameAt? (spacedFrom false text) =
      (nameAt? text).map fun found => (found.1, spacedFrom true found.2) := by
  match text with
  | [] => rfl
  | c :: cs =>
    rw [spacedFrom_char _ (h c rfl)]
    by_cases hc : c = '-'
    · subst hc
      match cs with
      | [] => rfl
      | d :: cs =>
        by_cases hd : d = '-'
        · subst hd
          obtain ⟨htake, hdrop⟩ := name_spacedFrom cs
          rw [spacedFrom_char _ (by decide)]
          simp only [nameAt?, htake, hdrop]
          split <;> rfl
        · have hnone : nameAt? ('-' :: d :: cs) = none := by simp [nameAt?, hd]
          have hnone' : nameAt? ('-' :: spacedFrom true (d :: cs)) = none := by
            cases hb : isBlank d with
            | true =>
              rw [spacedFrom_blank _ hb]
              simp [nameAt?, spacedFrom]
            | false =>
              rw [spacedFrom_char _ hb]
              simp [nameAt?, hd]
          rw [hnone, hnone']
          rfl
    · simp [nameAt?, hc]

/-- **A reference stands where it stood,** with the same name. -/
theorem referenceAt?_spacedFrom (c : Char) (cs : Text) :
    (referenceAt? (c :: spacedFrom true cs)).map Prod.snd =
      (referenceAt? (c :: cs)).map fun found => (found.2.1, spacedFrom true found.2.2) := by
  have hsnd : ∀ text,
      (referenceAt? text).map (fun found => (found.2.1, spacedFrom true found.2.2)) =
      ((referenceAt? text).map Prod.snd).map fun found => (found.1, spacedFrom true found.2) := by
    intro text
    rw [Option.map_map]
    rfl
  rw [hsnd, map_snd_referenceAt?, map_snd_referenceAt?, referenceOpening?_spacedFrom]
  cases hopening : referenceOpening? (c :: cs) with
  | none => rfl
  | some found => exact nameAt?_spacedFrom (referenceOpening?_rest hopening)

/-- A reference begins with a `v`, capital or not. -/
theorem referenceAt?_eq_none {c : Char} (h : c.toLower ≠ 'v') (cs : Text) :
    referenceAt? (c :: cs) = none := by
  refine Option.eq_none_iff_forall_ne_some.2 fun ⟨opening, name, rest⟩ hfound => ?_
  obtain ⟨htext, ⟨hword, -, -⟩, -, -⟩ := referenceAt?_eq_some_iff.1 hfound
  rw [← (List.cons.inj htext).1] at hword
  exact h hword.1

/-- No reference begins with a blank. -/
theorem referenceAt?_blank {c : Char} (hc : isBlank c = true) (cs : Text) :
    referenceAt? (c :: cs) = none :=
  referenceAt?_eq_none (toLower_ne_of_isBlank hc).1 cs

theorem variableRefsFrom_blank {c : Char} (hc : isBlank c = true) (inWord : Bool) (offset : Nat)
    (cs : Text) :
    variableRefsFrom inWord offset (c :: cs) = variableRefsFrom false (offset + c.utf8Size) cs := by
  rw [variableRefsFrom_none (by simp [referenceAt?_blank hc]), isWordChar_of_isBlank hc]

/-- **The names of references do not depend on the blanks** between words and around them. -/
theorem names_spacedFrom {inWord inWord' : Bool} {offset : Nat} {text : Text}
    (h : inWord = true → inWord' = true) (offset' : Nat) :
    (variableRefsFrom inWord offset' (spacedFrom inWord' text)).map VariableRef.name =
      (variableRefsFrom inWord offset text).map VariableRef.name := by
  induction inWord, offset, text using variableRefsFrom.induct generalizing inWord' offset' with
  | case1 inWord offset =>
    cases inWord' with
    | false => simp [spacedFrom, variableRefsFrom]
    | true =>
      rw [show spacedFrom true [] = [' '] from rfl, variableRefsFrom_blank (by decide)]
      simp [variableRefsFrom]
  | case2 inWord offset c cs opening name rest hat start stop =>
    rename_i ih
    simp only [dite_eq_ite] at hat
    obtain ⟨hword, hat'⟩ := Option.ite_none_left_eq_some.1 hat
    have hc : isBlank c = false := by
      by_contra hc
      rw [referenceAt?_blank (by simpa using hc)] at hat'
      simp at hat'
    have hspaced := referenceAt?_spacedFrom c cs
    rw [hat'] at hspaced
    obtain ⟨⟨opening', found⟩, hfound, heq⟩ := Option.map_eq_some_iff.1 hspaced
    obtain rfl : found = (name, spacedFrom true rest) := heq
    rw [spacedFrom_char _ hc, variableRefsFrom_some hat,
      variableRefsFrom_some (by rw [if_neg hword]; exact hfound), List.map_cons, List.map_cons,
      ih (fun _ => rfl)]
  | case3 inWord offset c cs hnone ih =>
    simp only [dite_eq_ite] at hnone
    cases hc : isBlank c with
    | true =>
      rw [isWordChar_of_isBlank hc] at ih
      rw [variableRefsFrom_blank hc, spacedFrom_blank _ hc]
      cases inWord' with
      | false =>
        have hword : inWord = false := by simpa using mt h (by decide)
        rw [hword]
        exact ih (by simp) offset'
      | true =>
        have hspace : isBlank ' ' = true := by decide
        rw [show spacedFrom true [] = [' '] from rfl, List.singleton_append,
          variableRefsFrom_blank hspace]
        exact ih (by simp) _
    | false =>
      have hspaced := referenceAt?_spacedFrom c cs
      have hnone' : (if inWord = true then none else referenceAt? (c :: spacedFrom true cs)) =
          none := by
        split
        · rfl
        · next hword =>
          rw [if_neg hword] at hnone
          simpa [hnone] using hspaced
      rw [spacedFrom_char _ hc, variableRefsFrom_none hnone, variableRefsFrom_none hnone']
      exact ih (fun _ => rfl) _

end StyleServer
