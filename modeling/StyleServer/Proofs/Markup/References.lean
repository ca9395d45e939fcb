/-
  Class names in layout markup, and where they stand.

  Class attributes are searched from the left, and the search goes on behind the closing quote
  of each.  The words of their values are the class names.

  * `IsClassOpening`, `classAttribute?_eq_some_iff`: what a class attribute is, character by
    character.
  * `ClassAttribute.In`, `ClassAttribute.whole`: an attribute stands in a text, character by
    character.  `classAttributesFrom_leftmost`: the search finds them from the left.
  * `Fragment.IsWordOf`, `Fragment.mem_words_iff`: a word is a run without blanks that is as
    long as can be, and each is listed.
  * `Text.ReferencesExact`, `classReferences_exact`: all of this about one text.
-/
import Mathlib.Data.List.Nodup
import StyleServer.Markup.Reference
import StyleServer.Proofs.Bytewise.Bytes
import StyleServer.Proofs.Sheet.Lookup
import StyleServer.Proofs.Sheet.References
import StyleServer.Proofs.Text.Leftmost

namespace StyleServer

/-! ## One attribute -/

/-- What opens a class attribute, up to the quote: `class` and an equals sign, with blanks
    behind each. -/
inductive IsClassOpening : Text → Prop where
  | mk {before behind : Text} (hbefore : ∀ c ∈ before, isBlank c = true)
      (hbehind : ∀ c ∈ behind, isBlank c = true) :
      IsClassOpening ('c' :: 'l' :: 'a' :: 's' :: 's' :: (before ++ '=' :: behind))

theorem classOpening?_eq_some_iff {text opening rest : Text} {quote : Char} :
    classOpening? text = some (opening, quote, rest) ↔
      text = opening ++ quote :: rest ∧ IsClassOpening opening ∧ isQuote quote = true := by
  have hblank : ∀ text : Text, ∀ c ∈ text.takeWhile isBlank, isBlank c = true :=
    fun text => List.all_eq_true.1 List.all_takeWhile
  constructor
  · intro h
    refine ⟨classOpening?_append h, ?_⟩
    unfold classOpening? at h
    split at h
    · next cs =>
      split at h
      · next value _ =>
        split at h
        · obtain ⟨hquote, h⟩ := Option.ite_none_right_eq_some.1 h
          simp only [Option.some.injEq, Prod.mk.injEq] at h
          obtain ⟨rfl, rfl, rfl⟩ := h
          exact ⟨by simpa using IsClassOpening.mk (hblank cs) (hblank value),
            by simpa [isQuote] using hquote⟩
        · simp at h
      · simp at h
    · simp at h
  · rintro ⟨rfl, @⟨before, behind, hbefore, hbehind⟩, hquote⟩
    have hsign : ∀ c ∈ ('=' :: (behind ++ quote :: rest)).head?, isBlank c = false := by
      rintro c ⟨⟩
      decide
    have hstop : ∀ c ∈ (quote :: rest).head?, isBlank c = false := by
      rintro c ⟨⟩
      simp only [isQuote, Bool.or_eq_true, beq_iff_eq] at hquote
      rcases hquote with rfl | rfl <;> decide
    have htext : ('c' :: 'l' :: 'a' :: 's' :: 's' :: (before ++ '=' :: behind)) ++ quote :: rest =
        'c' :: 'l' :: 'a' :: 's' :: 's' :: (before ++ '=' :: (behind ++ quote :: rest)) := by simp
    rw [htext, classOpening?, dropWhile_stop hbefore hsign]
    simp only [dropWhile_stop hbehind hstop, takeWhile_stop hbefore hsign,
      takeWhile_stop hbehind hstop]
    rw [if_pos (by simpa [isQuote] using hquote)]
    simp

/-- **A class attribute** is an opening and a value between two quotes of one kind, the second
    being the first to follow. -/
theorem classAttribute?_eq_some_iff {text front value rest : Text} :
    classAttribute? text = some (front, value, rest) ↔ ∃ opening quote,
      IsClassOpening opening ∧ isQuote quote = true ∧ quote ∉ value ∧ front = opening ++ [quote] ∧
        text = front ++ (value ++ quote :: rest) := by
  constructor
  · intro h
    unfold classAttribute? at h
    split at h
    · next opening quote inside hopening =>
      obtain ⟨htext, hopening, hquote⟩ := classOpening?_eq_some_iff.1 hopening
      split at h
      · next c rest' hdrop =>
        simp only [Option.some.injEq, Prod.mk.injEq] at h
        obtain ⟨rfl, rfl, rfl⟩ := h
        have hc : c = quote := by
          have hhead : c ∈ (inside.dropWhile (· != quote)).head? := by
            rw [hdrop]
            rfl
          simpa using head?_dropWhile c hhead
        have hinside := List.takeWhile_append_dropWhile (p := (· != quote)) (l := inside)
        refine ⟨opening, quote, hopening, hquote, ?_, rfl, ?_⟩
        · intro hmem
          simpa using List.all_eq_true.1 List.all_takeWhile quote hmem
        · rw [hdrop, hc] at hinside
          rw [htext, hinside, List.append_assoc, List.singleton_append]
      · simp at h
    · simp at h
  · rintro ⟨opening, quote, hopening, hquote, hvalue, rfl, rfl⟩
    have hinside : ∀ c ∈ value, (c != quote) = true := by
      intro c hc
      simpa using fun heq : c = quote => hvalue (heq ▸ hc)
    have hstop : ∀ c ∈ (quote :: rest).head?, (c != quote) = false := by
      rintro c ⟨⟩
      simp
    rw [classAttribute?, List.append_assoc, List.singleton_append,
      classOpening?_eq_some_iff.2 ⟨rfl, hopening, hquote⟩]
    simp only [dropWhile_stop hinside hstop, takeWhile_stop hinside hstop]

/-! ## The attributes of a text -/

/-- A class attribute of a text: where it begins, its value, and where it ends. -/
structure ClassAttribute where
  start : Nat
  value : Fragment
  stop : Nat

namespace ClassAttribute

/-- The text is `before`, the attribute and `after`.  The attribute does not stand behind a
    word character. -/
structure Between (a : ClassAttribute) (text before opening : Text) (quote : Char)
    (after : Text) : Prop where
  text_eq : text = before ++ (opening ++ [quote] ++ (a.value.chars ++ quote :: after))
  isOpening : IsClassOpening opening
  isQuote : isQuote quote = true
  /-- The value reaches to the first such quote. -/
  inside : quote ∉ a.value.chars
  begins : ∀ c ∈ before.getLast?, isWordChar c = false
  start_eq : a.start = before.byteLength
  value_start : a.value.start = (before ++ (opening ++ [quote])).byteLength
  stop_eq : a.stop = a.value.stop + 1

/-- The attribute stands in a text. -/
def In (a : ClassAttribute) (text : Text) : Prop :=
  ∃ before opening quote after, a.Between text before opening quote after

variable {a b : ClassAttribute} {text : Text}

/-- An attribute begins where a text can be cut into what stands before it and a text that
    begins with it. -/
theorem in_iff : a.In text ↔ ∃ before rest front value after, text = before ++ rest ∧
    (∀ c ∈ before.getLast?, isWordChar c = false) ∧
    classAttribute? rest = some (front, value, after) ∧
    a = ⟨before.byteLength, ⟨before.byteLength + front.byteLength, value⟩,
      before.byteLength + front.byteLength + value.byteLength + 1⟩ := by
  constructor
  · rintro ⟨before, opening, quote, after, h⟩
    refine ⟨before, _, opening ++ [quote], a.value.chars, after, h.text_eq, h.begins,
      classAttribute?_eq_some_iff.2
        ⟨opening, quote, h.isOpening, h.isQuote, h.inside, rfl, rfl⟩, ?_⟩
    obtain ⟨start, ⟨valueStart, chars⟩, stop⟩ := a
    obtain rfl : start = before.byteLength := h.start_eq
    obtain rfl : valueStart = (before ++ (opening ++ [quote])).byteLength := h.value_start
    obtain rfl : stop = (before ++ (opening ++ [quote])).byteLength + chars.byteLength + 1 :=
      h.stop_eq
    simp
  · rintro ⟨before, rest, front, value, after, rfl, hbefore, hrest, rfl⟩
    obtain ⟨opening, quote, hopening, hquote, hvalue, rfl, rfl⟩ :=
      classAttribute?_eq_some_iff.1 hrest
    exact ⟨before, opening, quote, after, rfl, hopening, hquote, hvalue, hbefore, rfl,
      by simp, rfl⟩

theorem In.start_lt_value (h : a.In text) : a.start < a.value.start := by
  obtain ⟨before, opening, quote, after, h⟩ := h
  have hpos : 0 < Text.byteLength (opening ++ [quote]) := Text.byteLength_pos (by simp)
  rw [h.start_eq, h.value_start, Text.byteLength_append]
  omega

/-- An attribute ends behind the quote that ends its value. -/
theorem In.stop_eq (h : a.In text) : a.stop = a.value.start + a.value.chars.byteLength + 1 := by
  obtain ⟨before, opening, quote, after, h⟩ := h
  exact h.stop_eq

/-- The value of an attribute stands in the text. -/
theorem In.value_in (h : a.In text) : a.value.In text := by
  obtain ⟨before, opening, quote, after, h⟩ := h
  refine ⟨before ++ (opening ++ [quote]), quote :: after, ?_, h.value_start.symm⟩
  rw [h.text_eq]
  simp

/-- Where an attribute begins, there is no other one. -/
theorem In.eq_of_start (ha : a.In text) (hb : b.In text) (h : a.start = b.start) : a = b := by
  obtain ⟨before, rest, front, value, after, rfl, -, hrest, rfl⟩ := in_iff.1 ha
  obtain ⟨before', rest', front', value', after', heq, -, hrest', rfl⟩ := in_iff.1 hb
  have hsize : before.byteLength = before'.byteLength := h
  obtain ⟨rfl, rfl⟩ := Text.append_inj heq hsize
  rw [hrest'] at hrest
  cases hrest
  rfl

end ClassAttribute

/-! ## Attributes from the left -/

namespace ClassAttribute

/-- From the opening through the quote that ends the value. -/
def whole (a : ClassAttribute) : Span := ⟨a.start, a.stop⟩

variable {text : Text} {offset : Nat} {found : List ClassAttribute}

/-- What is found behind an offset begins behind it. -/
theorem start_le_of_leftmost (h : Leftmost (In · text) whole offset found) :
    ∀ a ∈ found, offset ≤ a.start := by
  induction h with
  | none => simp
  | @next offset a found ha hle hfirst hrest ih =>
    intro b hb
    rcases List.mem_cons.1 hb with rfl | hb
    · exact hle
    · have hstop : a.stop ≤ b.start := ih b hb
      have hlt := ha.start_lt_value
      have hend := ha.stop_eq
      have hstart : offset ≤ a.start := hle
      omega

/-- Of two attributes, the value of the second begins behind that of the first. -/
theorem values_separate (h : Leftmost (In · text) whole offset found) :
    (found.map (·.value)).Pairwise fun f g => f.stop < g.start := by
  induction h with
  | none => exact .nil
  | @next offset a found ha hle hfirst hrest ih =>
    refine List.pairwise_cons.2 ⟨?_, ih⟩
    intro f hf
    obtain ⟨b, hb, rfl⟩ := List.mem_map.1 hf
    have hstop : a.stop ≤ b.start := start_le_of_leftmost hrest b hb
    have hlt := (hrest.occurs_of_mem hb).start_lt_value
    have hend := ha.stop_eq
    dsimp only [Fragment.stop]
    omega

end ClassAttribute

/-! ## The search -/

theorem classAttributesFrom_some {inWord : Bool} {offset : Nat} {c : Char}
    {cs opening value rest : Text}
    (h : (if inWord then none else classAttribute? (c :: cs)) = some (opening, value, rest)) :
    classAttributesFrom inWord offset (c :: cs) =
      ⟨offset + opening.byteLength, value⟩ ::
        classAttributesFrom false (offset + opening.byteLength + value.byteLength + 1) rest := by
  rw [classAttributesFrom]
  split
  · next heq =>
    rw [h] at heq
    simp only [Option.some.injEq, Prod.mk.injEq] at heq
    obtain ⟨rfl, rfl, rfl⟩ := heq
    rfl
  · next heq =>
    rw [h] at heq
    simp at heq

theorem classAttributesFrom_none {inWord : Bool} {offset : Nat} {c : Char} {cs : Text}
    (h : (if inWord then none else classAttribute? (c :: cs)) = none) :
    classAttributesFrom inWord offset (c :: cs) =
      classAttributesFrom (isWordChar c) (offset + c.utf8Size) cs := by
  rw [classAttributesFrom]
  split
  · next heq =>
    rw [h] at heq
    simp at heq
  · rfl

/-- No attribute begins where the search finds none. -/
theorem ClassAttribute.In.start_of_none {a : ClassAttribute} {before cs : Text} {c : Char}
    (h : (if before.getLast?.any isWordChar then none else classAttribute? (c :: cs)) = none)
    (ha : a.In (before ++ c :: cs)) (hle : before.byteLength ≤ a.start) :
    before.byteLength + c.utf8Size ≤ a.start := by
  obtain ⟨before', rest, front, value, after, heq, hbefore, hrest, rfl⟩ := in_iff.1 ha
  obtain ⟨m, rfl, hm⟩ := Text.append_split heq hle
  cases m with
  | nil =>
    -- The attribute begins right here, so the search would have found it.
    rw [List.append_nil] at hbefore
    rw [List.nil_append] at hm
    have hword : before.getLast?.any isWordChar = false := by
      cases hlast : before.getLast? with
      | none => rfl
      | some d => exact hbefore d hlast
    rw [hword, hm, hrest] at h
    simp at h
  | cons d m =>
    obtain rfl : c = d := (List.cons.inj hm).1
    simp only [Text.byteLength_append, Text.byteLength_cons]
    omega

/-- **The search finds the attributes** from the left, from where it stands. -/
theorem classAttributesFrom_leftmost (before rest : Text) : ∃ found,
    Leftmost (ClassAttribute.In · (before ++ rest)) ClassAttribute.whole before.byteLength found ∧
      classAttributesFrom (before.getLast?.any isWordChar) before.byteLength rest =
        found.map (·.value) := by
  induction hn : rest.length using Nat.strongRecOn generalizing before rest with
  | _ n ih =>
  cases rest with
  | nil =>
    refine ⟨[], .none fun a ha => ?_, by rw [classAttributesFrom]; rfl⟩
    obtain ⟨before', rest, front, value, after, heq, -, hrest, rfl⟩ := ClassAttribute.in_iff.1 ha
    obtain ⟨opening, quote, -, -, -, rfl, rfl⟩ := classAttribute?_eq_some_iff.1 hrest
    rw [List.append_nil] at heq
    have hpos : 0 < Text.byteLength (opening ++ [quote]) := Text.byteLength_pos (by simp)
    simp only [ClassAttribute.whole, heq, Text.byteLength_append] at hpos ⊢
    omega
  | cons c cs =>
    cases h : if before.getLast?.any isWordChar then none else classAttribute? (c :: cs) with
    | none =>
      obtain ⟨found, hfound, hvalues⟩ := ih cs.length (by rw [← hn]; simp) (before ++ [c]) cs rfl
      have hsize : Text.byteLength (before ++ [c]) = before.byteLength + c.utf8Size := by simp
      have hlast : (before ++ [c]).getLast?.any isWordChar = isWordChar c := by simp
      rw [hsize, List.append_assoc, List.singleton_append] at hfound
      rw [hsize, hlast] at hvalues
      refine ⟨found, hfound.earlier (Nat.le_add_right _ _) fun a ha hle => ?_, ?_⟩
      · exact ha.start_of_none h hle
      · rw [classAttributesFrom_none h, hvalues]
    | some parts =>
      obtain ⟨front, value, after⟩ := parts
      obtain ⟨hword, hrest⟩ := Option.ite_none_left_eq_some.1 h
      obtain ⟨opening, quote, hopening, hquote, hvalue, hfront, htext⟩ :=
        classAttribute?_eq_some_iff.1 hrest
      -- The search goes on behind the closing quote.
      obtain ⟨found, hfound, hvalues⟩ := ih after.length
        (by rw [← hn]; exact classAttribute?_length hrest) (before ++ (front ++ (value ++ [quote])))
        after rfl
      have hascii : quote.utf8Size = 1 := Text.utf8Size_of_ascii (ascii_of_isQuote hquote)
      have hsize : Text.byteLength (before ++ (front ++ (value ++ [quote]))) =
          before.byteLength + front.byteLength + value.byteLength + 1 := by
        simp only [Text.byteLength_append, Text.byteLength_cons, Text.byteLength_nil, hascii]
        omega
      have hlast : (before ++ (front ++ (value ++ [quote]))).getLast?.any isWordChar = false := by
        rw [← List.append_assoc, ← List.append_assoc, List.getLast?_concat]
        simp only [isQuote, Bool.or_eq_true, beq_iff_eq] at hquote
        rcases hquote with rfl | rfl <;> decide +kernel
      have hwhole : before ++ (front ++ (value ++ [quote])) ++ after = before ++ c :: cs := by
        rw [htext]
        simp
      rw [hsize, hwhole] at hfound
      rw [hsize, hlast] at hvalues
      have hbefore : ∀ d ∈ before.getLast?, isWordChar d = false := by
        intro d hd
        rw [Option.mem_def.1 hd] at hword
        simpa using hword
      refine ⟨⟨before.byteLength, ⟨before.byteLength + front.byteLength, value⟩,
          before.byteLength + front.byteLength + value.byteLength + 1⟩ :: found,
        .next (ClassAttribute.in_iff.2 ⟨before, _, front, value, after, rfl, hbefore, hrest, rfl⟩)
          (Nat.le_refl _) (fun _ _ hle => hle) hfound, ?_⟩
      rw [classAttributesFrom_some h, hvalues]
      rfl

/-- The values of class attributes are those of the attributes that are found. -/
theorem classAttributes_leftmost (text : Text) :
    ∃ found, Leftmost (ClassAttribute.In · text) ClassAttribute.whole 0 found ∧
      classAttributes text = found.map (·.value) :=
  classAttributesFrom_leftmost [] text

/-- A quote at least stands between two values. -/
theorem classAttributes_separate (text : Text) :
    (classAttributes text).Pairwise fun f g => f.stop < g.start := by
  obtain ⟨found, hfound, hvalues⟩ := classAttributes_leftmost text
  rw [hvalues]
  exact ClassAttribute.values_separate hfound

/-! ## Words -/

namespace Fragment

/-- The fragment is `before`, the word and `after`.  No character beside the word could be a
    part of it. -/
structure WordBetween (f word : Fragment) (before after : Text) : Prop where
  chars_eq : f.chars = before ++ (word.chars ++ after)
  start_eq : word.start = f.start + before.byteLength
  ne_nil : word.chars ≠ []
  run : ∀ c ∈ word.chars, isAsciiBlank c = false
  before_stop : ∀ c ∈ before.getLast?, isAsciiBlank c = true
  after_stop : ∀ c ∈ after.head?, isAsciiBlank c = true

/-- A word of a fragment: a run of characters that are no blanks, as long as can be. -/
def IsWordOf (word f : Fragment) : Prop := ∃ before after, f.WordBetween word before after

end Fragment

/-- A text is empty, begins with a blank, or begins with a word that a blank or the end
    follows. -/
theorem words_induction {motive : Text → Prop} (text : Text) (nil : motive [])
    (blank : ∀ c cs, isAsciiBlank c = true → motive cs → motive (c :: cs))
    (word : ∀ chars cs : Text, chars ≠ [] → (∀ c ∈ chars, isAsciiBlank c = false) →
      (∀ c ∈ cs.head?, isAsciiBlank c = true) → motive cs → motive (chars ++ cs)) :
    motive text := by
  induction hn : text.length using Nat.strongRecOn generalizing text with
  | _ n ih =>
  cases text with
  | nil => exact nil
  | cons c cs =>
    by_cases hc : isAsciiBlank c = true
    · exact blank c cs hc (ih _ (by rw [← hn]; simp) cs rfl)
    · have hsplit := List.takeWhile_append_dropWhile (p := fun d => !isAsciiBlank d) (l := c :: cs)
      have hne : (c :: cs).takeWhile (fun d => !isAsciiBlank d) ≠ [] := by simp [hc]
      have hrun : ∀ d ∈ (c :: cs).takeWhile (fun d => !isAsciiBlank d), isAsciiBlank d = false := by
        intro d hd
        simpa using List.all_eq_true.1 List.all_takeWhile d hd
      have hstop : ∀ d ∈ ((c :: cs).dropWhile fun d => !isAsciiBlank d).head?,
          isAsciiBlank d = true := by
        intro d hd
        simpa using head?_dropWhile d hd
      rw [← hsplit]
      refine word _ _ hne hrun hstop (ih _ ?_ _ rfl)
      rw [← hn]
      conv_rhs => rw [← hsplit]
      rw [List.length_append]
      have := List.length_pos_iff.2 hne
      omega

@[simp] theorem wordsFrom_nil (offset : Nat) : wordsFrom offset [] = [] := rfl

theorem wordsFrom_cons (offset : Nat) (c : Char) (cs : Text) :
    wordsFrom offset (c :: cs) =
      if isAsciiBlank c then wordsFrom (offset + c.utf8Size) cs
      else match cs, wordsFrom (offset + c.utf8Size) cs with
        | d :: _, f :: fs => if isAsciiBlank d then ⟨offset, [c]⟩ :: f :: fs
          else ⟨offset, c :: f.chars⟩ :: fs
        | _, fs => ⟨offset, [c]⟩ :: fs :=
  rfl

theorem wordsFrom_blank {c : Char} (h : isAsciiBlank c = true) (offset : Nat) (cs : Text) :
    wordsFrom offset (c :: cs) = wordsFrom (offset + c.utf8Size) cs := by
  rw [wordsFrom_cons, if_pos h]

/-- A word up to a blank or the end is the first. -/
theorem wordsFrom_word {chars cs : Text} (hne : chars ≠ [])
    (hrun : ∀ c ∈ chars, isAsciiBlank c = false) (hstop : ∀ c ∈ cs.head?, isAsciiBlank c = true)
    (offset : Nat) :
    wordsFrom offset (chars ++ cs) =
      ⟨offset, chars⟩ :: wordsFrom (offset + chars.byteLength) cs := by
  induction chars generalizing offset with
  | nil => exact absurd rfl hne
  | cons c chars ih =>
    obtain ⟨hc, hchars⟩ := List.forall_mem_cons.1 hrun
    rw [List.cons_append, wordsFrom_cons, if_neg (by simp [hc])]
    cases chars with
    | nil =>
      cases cs with
      | nil => simp
      | cons d cs =>
        have hd := hstop d rfl
        simp only [List.nil_append, Text.byteLength_cons, Text.byteLength_nil, Nat.add_zero]
        cases wordsFrom (offset + c.utf8Size) (d :: cs) with
        | nil => rfl
        | cons f fs => simp [hd]
    | cons d chars =>
      have hd := hchars d List.mem_cons_self
      have hrest := ih (by simp) hchars (offset + c.utf8Size)
      rw [List.cons_append] at hrest ⊢
      simp [hd, hrest, Nat.add_assoc]

namespace Fragment

variable {word : Fragment} {offset : Nat}

theorem isWordOf_nil : ¬ word.IsWordOf ⟨offset, []⟩ := by
  rintro ⟨before, after, h⟩
  have hnil := h.chars_eq
  simp only [List.nil_eq, List.append_eq_nil_iff] at hnil
  exact h.ne_nil hnil.2.1

/-- A blank at the front is a part of no word. -/
theorem isWordOf_blank {c : Char} (hc : isAsciiBlank c = true) {cs : Text} :
    word.IsWordOf ⟨offset, c :: cs⟩ ↔ word.IsWordOf ⟨offset + c.utf8Size, cs⟩ := by
  constructor
  · rintro ⟨before, after, h⟩
    cases before with
    | nil =>
      obtain ⟨d, chars, hword⟩ := List.exists_cons_of_ne_nil h.ne_nil
      have heq := h.chars_eq
      rw [hword] at heq
      obtain rfl : c = d := (List.cons.inj heq).1
      have hd := h.run c (by rw [hword]; exact List.mem_cons_self)
      rw [hc] at hd
      cases hd
    | cons d before =>
      obtain ⟨rfl, heq⟩ := List.cons.inj h.chars_eq
      refine ⟨before, after, heq, ?_, h.ne_nil, h.run, fun e he => h.before_stop e ?_, h.after_stop⟩
      · rw [h.start_eq, Text.byteLength_cons]
        dsimp only
        omega
      · rw [List.getLast?_cons, Option.mem_def.1 he]
        rfl
  · rintro ⟨before, after, h⟩
    refine ⟨c :: before, after, ?_, ?_, h.ne_nil, h.run, ?_, h.after_stop⟩
    · exact congrArg (c :: ·) h.chars_eq
    · rw [h.start_eq, Text.byteLength_cons]
      dsimp only
      omega
    · intro e he
      rw [List.getLast?_cons] at he
      cases hlast : before.getLast? with
      | none =>
        rw [hlast] at he
        obtain rfl := Option.some.inj he
        exact hc
      | some d =>
        rw [hlast] at he
        obtain rfl := Option.some.inj he
        exact h.before_stop _ hlast

/-- The words of a text that begins with a word: that one, and those behind it. -/
theorem isWordOf_word {chars cs : Text} (hne : chars ≠ [])
    (hrun : ∀ c ∈ chars, isAsciiBlank c = false) (hstop : ∀ c ∈ cs.head?, isAsciiBlank c = true) :
    word.IsWordOf ⟨offset, chars ++ cs⟩ ↔
      word = ⟨offset, chars⟩ ∨ word.IsWordOf ⟨offset + chars.byteLength, cs⟩ := by
  constructor
  · rintro ⟨before, after, h⟩
    have heq : chars ++ cs = before ++ (word.chars ++ after) := h.chars_eq
    cases before with
    | nil =>
      -- Both are the run at the front.
      have hfront : ∀ {a b : Text}, (∀ c ∈ a, isAsciiBlank c = false) →
          (∀ c ∈ b.head?, isAsciiBlank c = true) →
          (a ++ b).takeWhile (fun c => !isAsciiBlank c) = a := by
        intro a b ha hb
        exact takeWhile_stop (by simpa using ha) (by simpa using hb)
      left
      have hword : word.chars = chars := by
        rw [← hfront h.run h.after_stop, ← List.nil_append (word.chars ++ after), ← heq,
          hfront hrun hstop]
      obtain ⟨start, wordChars⟩ := word
      obtain rfl : start = offset := h.start_eq
      obtain rfl : wordChars = chars := hword
      rfl
    | cons d before =>
      right
      rcases List.append_eq_append_iff.1 heq with ⟨m, hm, hcs⟩ | ⟨m, hm, hcs⟩
      · rw [hm] at h
        refine ⟨m, after, hcs, ?_, h.ne_nil, h.run, fun e he => h.before_stop e ?_, h.after_stop⟩
        · rw [h.start_eq, Text.byteLength_append]
          dsimp only
          omega
        · rw [List.getLast?_append, Option.mem_def.1 he]
          rfl
      · -- What stands before the word would end inside of the run at the front.
        have hlast : (d :: before).getLast? = some ((d :: before).getLast (by simp)) :=
          List.getLast?_eq_some_getLast (by simp)
        have hblank := h.before_stop _ hlast
        have hmem : (d :: before).getLast (by simp) ∈ chars := by
          rw [hm]
          exact List.mem_append_left _ (List.getLast_mem _)
        rw [hrun _ hmem] at hblank
        cases hblank
  · rintro (rfl | ⟨before, after, h⟩)
    · exact ⟨[], cs, rfl, rfl, hne, hrun, by simp, hstop⟩
    · refine ⟨chars ++ before, after, ?_, ?_, h.ne_nil, h.run, ?_, h.after_stop⟩
      · have heq : cs = before ++ (word.chars ++ after) := h.chars_eq
        rw [heq, List.append_assoc]
      · rw [h.start_eq, Text.byteLength_append]
        dsimp only
        omega
      · intro e he
        rcases List.eq_nil_or_concat before with rfl | ⟨init, d, rfl⟩
        · -- A word right behind the first one would be a part of it.
          obtain ⟨d, rest, hword⟩ := List.exists_cons_of_ne_nil h.ne_nil
          have heq : cs = word.chars ++ after := h.chars_eq
          have hd := hstop d (by rw [heq, hword]; rfl)
          rw [h.run d (by rw [hword]; exact List.mem_cons_self)] at hd
          cases hd
        · refine h.before_stop e ?_
          rw [List.concat_eq_append] at he ⊢
          rw [← List.append_assoc, List.getLast?_concat] at he
          rwa [List.getLast?_concat]

theorem mem_wordsFrom_iff {text : Text} :
    word ∈ wordsFrom offset text ↔ word.IsWordOf ⟨offset, text⟩ := by
  induction text using words_induction generalizing offset with
  | nil => simp [isWordOf_nil]
  | blank c cs hc ih => rw [wordsFrom_blank hc, isWordOf_blank hc, ih]
  | word chars cs hne hrun hstop ih =>
    rw [wordsFrom_word hne hrun hstop, isWordOf_word hne hrun hstop, List.mem_cons, ih]

/-- **The words that are listed** are the words there are. -/
theorem mem_words_iff {f : Fragment} : word ∈ f.words ↔ word.IsWordOf f := mem_wordsFrom_iff

theorem IsWordOf.partOf {f : Fragment} (h : word.IsWordOf f) : word.PartOf f := by
  obtain ⟨before, after, h⟩ := h
  exact ⟨before, after, by rw [h.chars_eq, List.append_assoc], h.start_eq⟩

/-- A blank at least stands between two words. -/
theorem wordsFrom_separate (offset : Nat) (text : Text) :
    (wordsFrom offset text).Pairwise fun f g => f.stop < g.start := by
  induction text using words_induction generalizing offset with
  | nil => exact .nil
  | blank c cs hc ih => rw [wordsFrom_blank hc]; exact ih _
  | word chars cs hne hrun hstop ih =>
    rw [wordsFrom_word hne hrun hstop]
    refine List.pairwise_cons.2 ⟨fun g hg => ?_, ih _⟩
    cases cs with
    | nil => simp at hg
    | cons d cs =>
      rw [wordsFrom_blank (hstop d rfl), mem_wordsFrom_iff] at hg
      have hle : offset + chars.byteLength + d.utf8Size ≤ g.start := hg.partOf.start_le
      have hpos := d.utf8Size_pos
      simp only [stop]
      omega

end Fragment

/-! ## References -/

/-- The reference that a word is. -/
def ClassReference.ofWord (word : Fragment) : ClassReference := ⟨word.text, word.span⟩

/-- What the class references of a text are. -/
structure Text.ReferencesExact (text : Text) : Prop where
  /-- The attributes are found from the left, each behind the one before, in one way only. -/
  attributes : ∃! found, Leftmost (ClassAttribute.In · text) ClassAttribute.whole 0 found ∧
    classAttributes text = found.map (·.value)
  /-- A reference is a word of the value of one of these. -/
  words : ∀ r, r ∈ classReferences text ↔ ∃ value ∈ classAttributes text,
    ∃ word : Fragment, word.IsWordOf value ∧ r = .ofWord word
  /-- Each word of each value is listed once. -/
  once : ∀ value ∈ classAttributes text, ∀ word : Fragment, word.IsWordOf value →
    (classReferences text).count (.ofWord word) = 1
  named : ∀ r ∈ classReferences text, r.name ≠ "" ∧ (∀ c ∈ r.name.toList, isAsciiBlank c = false) ∧
    text.slice? r.span = some r.name.toList
  /-- They are in order, and a byte stands between two of them. -/
  separate : Separate ClassReference.span (classReferences text)
  found : ∀ offset, OnlyAt ClassReference.span (classReferences text) offset
    (classReferenceAt? text offset)

theorem mem_classReferences_iff {text : Text} {r : ClassReference} :
    r ∈ classReferences text ↔ ∃ value ∈ classAttributes text,
      ∃ word : Fragment, word.IsWordOf value ∧ r = .ofWord word := by
  simp only [classReferences, List.mem_flatMap, List.mem_map, Fragment.mem_words_iff]
  constructor
  · rintro ⟨value, hvalue, word, hword, rfl⟩
    exact ⟨value, hvalue, word, hword, rfl⟩
  · rintro ⟨value, hvalue, word, hword, rfl⟩
    exact ⟨value, hvalue, word, hword, rfl⟩

/-- A byte stands between two references, in one value and in two. -/
theorem classReferences_separate (text : Text) :
    Separate ClassReference.span (classReferences text) := by
  refine List.pairwise_flatMap.2 ⟨fun value _ => ?_, ?_⟩
  · exact List.pairwise_map.2 (Fragment.wordsFrom_separate value.start value.chars)
  · refine (classAttributes_separate text).imp fun hlt r hr s hs => ?_
    obtain ⟨f, hf, rfl⟩ := List.mem_map.1 hr
    obtain ⟨g, hg, rfl⟩ := List.mem_map.1 hs
    have hstop := (Fragment.mem_words_iff.1 hf).partOf.stop_le
    have hstart := (Fragment.mem_words_iff.1 hg).partOf.start_le
    exact Nat.lt_of_le_of_lt hstop (Nat.lt_of_lt_of_le hlt hstart)

/-- The value of a class attribute stands in the text. -/
theorem classAttributes_in {text : Text} {value : Fragment} (h : value ∈ classAttributes text) :
    value.In text := by
  obtain ⟨found, hfound, hvalues⟩ := classAttributes_leftmost text
  rw [hvalues] at h
  obtain ⟨a, ha, rfl⟩ := List.mem_map.1 h
  exact (hfound.occurs_of_mem ha).value_in

/-- **The class references of a text** are the words of its class attributes, where they stand. -/
theorem classReferences_exact (text : Text) : text.ReferencesExact where
  attributes := by
    obtain ⟨found, hfound, hvalues⟩ := classAttributes_leftmost text
    exact ⟨found, ⟨hfound, hvalues⟩,
      fun found' h => h.1.unique (fun _ _ ha hb => ha.eq_of_start hb) hfound⟩
  words _ := mem_classReferences_iff
  once := by
    intro value hvalue word hword
    have hmem : ClassReference.ofWord word ∈ classReferences text :=
      mem_classReferences_iff.2 ⟨value, hvalue, word, hword, rfl⟩
    have hnodup : (classReferences text).Nodup := by
      refine (List.Pairwise.and_mem.1 (classReferences_separate text)).imp fun {r s} h heq => ?_
      obtain ⟨hr, hs, hlt⟩ := h
      obtain ⟨_, _, f, hf, rfl⟩ := mem_classReferences_iff.1 hr
      subst heq
      have hle : f.start ≤ f.stop := Nat.le_add_right _ _
      exact absurd hlt (Nat.not_lt.2 hle)
    exact List.count_eq_one_of_mem hnodup hmem
  named := by
    intro r hr
    obtain ⟨value, hvalue, word, hword, rfl⟩ := mem_classReferences_iff.1 hr
    have hin := hword.partOf.in_text (classAttributes_in hvalue)
    obtain ⟨before, after, h⟩ := hword
    refine ⟨?_, ?_, ?_⟩
    · simpa [ClassReference.ofWord, Fragment.text] using h.ne_nil
    · simpa [ClassReference.ofWord, Fragment.text] using h.run
    · simpa [ClassReference.ofWord, Fragment.text] using hin.slice?_span
  separate := classReferences_separate text
  found _ := (classReferences_separate text).onlyAt

end StyleServer
