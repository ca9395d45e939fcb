/-
  Cuts of a fragment.

  * `Trimmed`: a text without blanks at its ends, or without other characters;
    `Fragment.trim_spec`: trimming leaves such a text or nothing.
  * `Fragment.PartOf`: a fragment stands in another one.  Trimming, cutting at a
    sign and splitting give parts, so their spans stay inside.
  * `Fragment.shift`: a fragment further back in a longer text.  All cuts commute
    with it: what a statement says depends on its characters alone.
-/
import StyleServer.Text.Fragment

namespace StyleServer

/-- Of two cuts of one text, the earlier one cuts what stands before the later one. -/
theorem Text.append_split {a b c d : Text} (h : a ++ b = c ++ d)
    (hle : Text.byteLength a ≤ Text.byteLength c) : ∃ m, c = a ++ m ∧ b = m ++ d := by
  rcases List.append_eq_append_iff.1 h with ⟨m, hc, hb⟩ | ⟨m, rfl, hd⟩
  · exact ⟨m, hc, hb⟩
  · cases m with
    | nil => exact ⟨[], by simp, by simpa using hd.symm⟩
    | cons d ds =>
      have hpos := d.utf8Size_pos
      simp only [Text.byteLength_append, Text.byteLength_cons] at hle
      omega

theorem Text.cut_byteLength (a b : Text) : Text.cut (a ++ b) a.byteLength = .ok (a, b) := by
  have hmin : min a.byteLength (a ++ b).byteLength = a.byteLength := by
    rw [byteLength_append]
    omega
  rw [cut, hmin, cutAt?_byteLength]

/-- Two cuts of one text at one offset are the same. -/
theorem Text.append_inj {a b c d : Text} (h : a ++ b = c ++ d)
    (hsize : Text.byteLength a = Text.byteLength c) : a = c ∧ b = d := by
  have hcut := cutAt?_byteLength a b
  rw [h, hsize, cutAt?_byteLength, Option.some.injEq, Prod.mk.injEq] at hcut
  exact ⟨hcut.1.symm, hcut.2.symm⟩

theorem Text.byteLength_pos {text : Text} (h : text ≠ []) : 0 < text.byteLength := by
  cases text with
  | nil => exact absurd rfl h
  | cons c cs =>
    have := c.utf8Size_pos
    simp only [byteLength_cons]
    omega

/-! ## Trimmed texts -/

theorem takeWhile_stop {p : Char → Bool} {a b : Text} (ha : ∀ c ∈ a, p c = true)
    (hb : ∀ c ∈ b.head?, p c = false) : (a ++ b).takeWhile p = a := by
  rw [List.takeWhile_append_of_pos ha]
  cases b with
  | nil => simp
  | cons c b => simp [hb c rfl]

theorem dropWhile_stop {p : Char → Bool} {a b : Text} (ha : ∀ c ∈ a, p c = true)
    (hb : ∀ c ∈ b.head?, p c = false) : (a ++ b).dropWhile p = b := by
  rw [List.dropWhile_append_of_pos ha]
  cases b with
  | nil => simp
  | cons c b => simp [hb c rfl]

/-- A text whose first and last characters do not satisfy `p`. -/
structure Trimmed (p : Char → Bool) (text : Text) : Prop where
  ne_nil : text ≠ []
  first : ∀ c ∈ text.head?, p c = false
  last : ∀ c ∈ text.getLast?, p c = false

namespace Trimmed

variable {p : Char → Bool} {before text after : Text}

theorem of_forall (hne : text ≠ []) (h : ∀ c ∈ text, p c = false) : Trimmed p text :=
  ⟨hne, fun c hc => h c (List.mem_of_head? hc), fun c hc => h c (List.mem_of_getLast? hc)⟩

theorem first_append (h : Trimmed p text) (after : Text) :
    ∀ c ∈ (text ++ after).head?, p c = false := by
  cases text with
  | nil => exact absurd rfl h.ne_nil
  | cons d text => exact h.first

theorem last_append (h : Trimmed p text) (before : Text) :
    ∀ c ∈ (before ++ text).getLast?, p c = false := by
  rcases List.eq_nil_or_concat text with rfl | ⟨init, d, rfl⟩
  · exact absurd rfl h.ne_nil
  · simpa using h.last

/-- Cutting off on both sides what satisfies `p` leaves the text. -/
theorem trim_eq (h : Trimmed p text) (hb : ∀ c ∈ before, p c = true) (ha : ∀ c ∈ after, p c = true) :
    (((before ++ (text ++ after)).dropWhile p).reverse.dropWhile p).reverse = text := by
  rw [dropWhile_stop hb (h.first_append after), List.reverse_append, dropWhile_stop,
    List.reverse_reverse]
  · simpa using ha
  · simpa using h.last

/-- There is only one way to cut off what satisfies `p`. -/
theorem unique {before' text' after' : Text} (h : Trimmed p text) (h' : Trimmed p text')
    (heq : before ++ (text ++ after) = before' ++ (text' ++ after'))
    (hb : ∀ c ∈ before, p c = true) (ha : ∀ c ∈ after, p c = true)
    (hb' : ∀ c ∈ before', p c = true) (ha' : ∀ c ∈ after', p c = true) :
    text = text' ∧ after = after' := by
  have htext : text = text' := by
    rw [← h.trim_eq hb ha, heq, h'.trim_eq hb' ha']
  have hrest : text ++ after = text' ++ after' := by
    rw [← dropWhile_stop hb (h.first_append after), heq, dropWhile_stop hb' (h'.first_append after')]
  rw [htext, List.append_cancel_left_eq] at hrest
  exact ⟨htext, hrest⟩

theorem append {a b : Text} (ha : Trimmed p a) (between : Text)
    (hb : Trimmed p b) : Trimmed p (a ++ (between ++ b)) := by
  refine ⟨List.append_ne_nil_of_left_ne_nil ha.ne_nil _, ha.first_append _, ?_⟩
  rw [← List.append_assoc]
  exact hb.last_append _

theorem singleton {c : Char} (h : p c = false) : Trimmed p [c] :=
  .of_forall (by simp) (by simpa using h)

end Trimmed

/-! ## Moving -/

/-- The span `n` bytes further back. -/
def Span.shift (n : Nat) (s : Span) : Span := ⟨s.start + n, s.stop + n⟩

@[simp] theorem Span.shift_start (n : Nat) (s : Span) : (s.shift n).start = s.start + n := rfl

@[simp] theorem Span.shift_stop (n : Nat) (s : Span) : (s.shift n).stop = s.stop + n := rfl

theorem Span.cover_shift (n : Nat) (s t : Span) :
    (s.shift n).cover (t.shift n) = (s.cover t).shift n := by
  simp only [cover, shift, Span.mk.injEq]
  omega

theorem Span.holds_shift (n : Nat) (s t : Span) : (s.shift n).holds (t.shift n) = s.holds t := by
  simp [holds]

namespace Fragment

/-- The fragment `n` bytes further back. -/
def shift (n : Nat) (f : Fragment) : Fragment := ⟨f.start + n, f.chars⟩

@[simp] theorem shift_start (n : Nat) (f : Fragment) : (f.shift n).start = f.start + n := rfl

@[simp] theorem shift_chars (n : Nat) (f : Fragment) : (f.shift n).chars = f.chars := rfl

@[simp] theorem shift_text (n : Nat) (f : Fragment) : (f.shift n).text = f.text := rfl

@[simp] theorem shift_span (n : Nat) (f : Fragment) : (f.shift n).span = f.span.shift n := by
  simp only [span, stop, shift, Span.shift, Span.mk.injEq, true_and]
  omega

@[simp] theorem shift_stop (n : Nat) (f : Fragment) : (f.shift n).stop = f.stop + n :=
  congrArg Span.stop (shift_span n f)

@[simp] theorem shift_dropWhile (n : Nat) (p : Char → Bool) (f : Fragment) :
    (f.shift n).dropWhile p = (f.dropWhile p).shift n := by
  simp only [dropWhile, shift, Fragment.mk.injEq, and_true]
  omega

@[simp] theorem shift_takeWhile (n : Nat) (p : Char → Bool) (f : Fragment) :
    (f.shift n).takeWhile p = (f.takeWhile p).shift n := rfl

@[simp] theorem shift_trim (n : Nat) (f : Fragment) : (f.shift n).trim = f.trim.shift n := by
  simp only [trim, shift_dropWhile]
  rfl

theorem shift_cutAt (n : Nat) (sep : Char) (f : Fragment) :
    (f.shift n).cutAt sep = (f.cutAt sep).map fun (a, b) => (a.shift n, b.shift n) := by
  unfold cutAt
  rw [shift_chars]
  cases f.chars.dropWhile (· != sep) with
  | nil => rfl
  | cons c after =>
    simp only [Option.map_some, shift, Option.some.injEq, Prod.mk.injEq, Fragment.mk.injEq,
      and_true, true_and]
    omega

theorem shift_splitFrom (n : Nat) (sep : Char) (start : Nat) (cs : Text) :
    splitFrom sep (start + n) cs = (splitFrom sep start cs).map (shift n) := by
  induction cs generalizing start with
  | nil => rfl
  | cons c cs ih =>
    have hc : start + n + c.utf8Size = start + c.utf8Size + n := by omega
    simp only [splitFrom, hc, ih]
    split
    · rfl
    · cases splitFrom sep (start + c.utf8Size) cs <;> rfl

theorem shift_splitOn (n : Nat) (sep : Char) (f : Fragment) :
    (f.shift n).splitOn sep = (f.splitOn sep).map (shift n) :=
  shift_splitFrom n sep f.start f.chars

/-! ## Parts -/

/-- `f` stands in `g`. -/
def PartOf (f g : Fragment) : Prop :=
  ∃ before after, g.chars = before ++ f.chars ++ after ∧ f.start = g.start + Text.byteLength before

namespace PartOf

variable {f g h : Fragment}

theorem start_le (hp : f.PartOf g) : g.start ≤ f.start := by
  obtain ⟨before, after, -, hs⟩ := hp
  omega

theorem stop_le (hp : f.PartOf g) : f.stop ≤ g.stop := by
  obtain ⟨before, after, hc, hs⟩ := hp
  simp only [stop, hc, hs, Text.byteLength_append]
  omega

theorem trans (hp : f.PartOf g) (hq : g.PartOf h) : f.PartOf h := by
  obtain ⟨before, after, hc, hs⟩ := hp
  obtain ⟨before', after', hc', hs'⟩ := hq
  refine ⟨before' ++ before, after ++ after', by simp [hc, hc'], ?_⟩
  simp only [hs, hs', Text.byteLength_append]
  omega

/-- A part of what stands in a text stands in the text. -/
theorem in_text {text : Text} (hp : f.PartOf g) (hg : g.In text) : f.In text := by
  obtain ⟨before, after, hc, hs⟩ := hp
  obtain ⟨before', after', rfl, hs'⟩ := hg
  refine ⟨before' ++ before, after ++ after', by simp [hc], ?_⟩
  rw [Text.byteLength_append, hs', hs]

end PartOf

theorem dropWhile_partOf (p : Char → Bool) (f : Fragment) : (f.dropWhile p).PartOf f :=
  ⟨f.chars.takeWhile p, [], by simp [dropWhile], rfl⟩

theorem trimEnd_partOf (f : Fragment) : f.trimEnd.PartOf f := by
  refine ⟨[], (f.chars.reverse.takeWhile isBlank).reverse, ?_, rfl⟩
  show f.chars = (f.chars.reverse.dropWhile isBlank).reverse ++ _
  rw [← List.reverse_append, List.takeWhile_append_dropWhile, List.reverse_reverse]

theorem trim_partOf (f : Fragment) : f.trim.PartOf f :=
  (trimEnd_partOf _).trans (dropWhile_partOf _ _)

/-- **Trimming** takes away blanks on both sides, and leaves none at the ends. -/
theorem trim_spec (f : Fragment) :
    ∃ before after, f.chars = before ++ (f.trim.chars ++ after) ∧
      f.trim.start = f.start + Text.byteLength before ∧
      (∀ c ∈ before, isBlank c = true) ∧ (∀ c ∈ after, isBlank c = true) ∧
      (f.trim.chars ≠ [] → Trimmed isBlank f.trim.chars) := by
  have hsplit : f.chars.dropWhile isBlank =
      f.trim.chars ++ ((f.chars.dropWhile isBlank).reverse.takeWhile isBlank).reverse := by
    show _ = ((f.chars.dropWhile isBlank).reverse.dropWhile isBlank).reverse ++ _
    rw [← List.reverse_append, List.takeWhile_append_dropWhile, List.reverse_reverse]
  refine ⟨f.chars.takeWhile isBlank, ((f.chars.dropWhile isBlank).reverse.takeWhile isBlank).reverse,
    ?_, rfl, ?_, ?_, fun hne => ⟨hne, ?_, ?_⟩⟩
  · rw [← hsplit, List.takeWhile_append_dropWhile]
  · exact List.all_eq_true.1 List.all_takeWhile
  · intro c hc
    exact List.all_eq_true.1 List.all_takeWhile c (List.mem_reverse.1 hc)
  · intro c hc
    have hhead : (f.chars.dropWhile isBlank).head? = some c := by
      rw [hsplit, List.head?_append, Option.mem_def.1 hc]
      rfl
    have := List.head?_dropWhile_not isBlank f.chars
    rw [hhead] at this
    simpa using this
  · intro c hc
    have hhead : ((f.chars.dropWhile isBlank).reverse.dropWhile isBlank).head? = some c := by
      rw [← List.getLast?_reverse]
      exact hc
    have := List.head?_dropWhile_not isBlank (f.chars.dropWhile isBlank).reverse
    rw [hhead] at this
    simpa using this

/-- A cut takes the first `sep` out. -/
theorem cutAt_split {sep : Char} {f a b : Fragment} (h : f.cutAt sep = some (a, b)) :
    f.chars = a.chars ++ sep :: b.chars ∧ a.start = f.start ∧
      b.start = f.start + Text.byteLength a.chars + sep.utf8Size := by
  unfold cutAt at h
  split at h
  · simp at h
  · next c after hd =>
    simp only [Option.some.injEq, Prod.mk.injEq] at h
    obtain ⟨rfl, rfl⟩ := h
    have hsep : c = sep := by
      have hhead := List.head?_dropWhile_not (· != sep) f.chars
      rw [hd] at hhead
      simpa using hhead
    subst hsep
    exact ⟨by rw [← hd, List.takeWhile_append_dropWhile], rfl, rfl⟩

/-- What stands before and behind the first `sep`. -/
theorem cutAt_eq_some {sep : Char} {f a b : Fragment} (h : f.cutAt sep = some (a, b)) :
    a.PartOf f ∧ b.PartOf f ∧ a.stop < b.start := by
  obtain ⟨hchars, ha, hb⟩ := cutAt_split h
  have hsep := sep.utf8Size_pos
  refine ⟨⟨[], sep :: b.chars, hchars, ha⟩, ⟨a.chars ++ [sep], [], by simpa using hchars, ?_⟩, ?_⟩
  · rw [hb]
    simp [Nat.add_assoc]
  · simp only [stop]
    omega

/-- The first part begins where the text does. -/
theorem splitFrom_start {sep : Char} {start : Nat} {cs : Text} {f : Fragment} {fs : List Fragment}
    (h : splitFrom sep start cs = f :: fs) : f.start = start := by
  cases cs with
  | nil => simp only [splitFrom, List.cons.injEq] at h; rw [← h.1]
  | cons c cs =>
    simp only [splitFrom] at h
    split at h
    · simp only [List.cons.injEq] at h; rw [← h.1]
    · split at h <;> simp only [List.cons.injEq] at h <;> rw [← h.1]

theorem splitFrom_partOf {sep : Char} {start : Nat} {cs : Text} {f : Fragment}
    (h : f ∈ splitFrom sep start cs) : f.PartOf ⟨start, cs⟩ := by
  induction cs generalizing start f with
  | nil =>
    simp only [splitFrom, List.mem_singleton] at h
    subst h; exact ⟨[], [], rfl, rfl⟩
  | cons c cs ih =>
    have htail : ∀ g ∈ splitFrom sep (start + c.utf8Size) cs, g.PartOf ⟨start, c :: cs⟩ := by
      intro g hg
      obtain ⟨before, after, hcs, hs⟩ := ih hg
      exact ⟨c :: before, after, by simpa using hcs, by simp only [hs, Text.byteLength_cons]; omega⟩
    simp only [splitFrom] at h
    split at h
    · rcases List.mem_cons.1 h with rfl | h
      · exact ⟨[], c :: cs, rfl, rfl⟩
      · exact htail f h
    · cases hr : splitFrom sep (start + c.utf8Size) cs with
      | nil =>
        rw [hr] at h
        simp only [List.mem_singleton] at h
        subst h; exact ⟨[], cs, rfl, rfl⟩
      | cons g gs =>
        rw [hr] at h
        rcases List.mem_cons.1 h with rfl | h
        · obtain ⟨before, after, hcs, hs⟩ := ih (hr ▸ List.mem_cons_self (a := g))
          have hb : before = [] := by
            have := splitFrom_start hr
            cases before with
            | nil => rfl
            | cons d ds =>
              have := d.utf8Size_pos
              simp only [Text.byteLength_cons] at hs; omega
          subst hb
          exact ⟨[], after, by simpa using hcs, rfl⟩
        · exact htail f (by rw [hr]; exact List.mem_cons_of_mem _ h)

/-- The separator stands between two parts. -/
theorem splitFrom_pairwise (sep : Char) (start : Nat) (cs : Text) :
    (splitFrom sep start cs).Pairwise fun f g => f.stop < g.start := by
  induction cs generalizing start with
  | nil => simp [splitFrom]
  | cons c cs ih =>
    have hc := c.utf8Size_pos
    simp only [splitFrom]
    split
    · refine List.pairwise_cons.2 ⟨fun g hg => ?_, ih _⟩
      have := (splitFrom_partOf hg).start_le
      simp only [stop, Text.byteLength_nil] at *; omega
    · have h := ih (start + c.utf8Size)
      cases hr : splitFrom sep (start + c.utf8Size) cs with
      | nil => simp
      | cons g gs =>
        rw [hr] at h
        obtain ⟨hg, hgs⟩ := List.pairwise_cons.1 h
        refine List.pairwise_cons.2 ⟨fun k hk => ?_, hgs⟩
        have := hg k hk
        have := splitFrom_start hr
        simp only [stop, Text.byteLength_cons] at *; omega

theorem splitOn_partOf {sep : Char} {f g : Fragment} (h : g ∈ f.splitOn sep) : g.PartOf f :=
  splitFrom_partOf h

theorem splitOn_pairwise (sep : Char) (f : Fragment) :
    (f.splitOn sep).Pairwise fun g h => g.stop < h.start := splitFrom_pairwise ..

/-! ## Separators -/

/-- The part before the first separator, and those behind it. -/
theorem splitFrom_sep {sep : Char} {part : Text} (h : ∀ c ∈ part, c ≠ sep) (start : Nat)
    (rest : Text) :
    splitFrom sep start (part ++ sep :: rest) =
      ⟨start, part⟩ :: splitFrom sep (start + Text.byteLength part + sep.utf8Size) rest := by
  induction part generalizing start with
  | nil => simp [splitFrom]
  | cons c part ih =>
    have hc : (c == sep) = false := by simpa using h c List.mem_cons_self
    simp only [List.cons_append, splitFrom, hc, ih (fun d hd => h d (List.mem_cons_of_mem _ hd))]
    simp [Nat.add_assoc]

/-- A text without separators is one part. -/
theorem splitFrom_single {sep : Char} {part : Text} (h : ∀ c ∈ part, c ≠ sep)
    (start : Nat) : splitFrom sep start part = [⟨start, part⟩] := by
  induction part generalizing start with
  | nil => rfl
  | cons c part ih =>
    have hc : (c == sep) = false := by simpa using h c List.mem_cons_self
    simp only [splitFrom, hc, ih (fun d hd => h d (List.mem_cons_of_mem _ hd))]
    simp

theorem trim_chars (f : Fragment) : f.trim.chars = Text.trim f.chars := rfl

/-- A fragment is cut at its first separator. -/
theorem cutAt_sep {sep : Char} {before : Text} (h : ∀ c ∈ before, c ≠ sep) (start : Nat)
    (after : Text) :
    cutAt sep ⟨start, before ++ sep :: after⟩ =
      some (⟨start, before⟩, ⟨start + Text.byteLength before + sep.utf8Size, after⟩) := by
  have hb : ∀ c ∈ before, (c != sep) = true := fun c hc => by simpa using h c hc
  have hs : ∀ c ∈ (sep :: after).head?, (c != sep) = false := by simp
  simp only [cutAt, dropWhile_stop hb hs, takeWhile_stop hb hs]

theorem cutAt_eq_none {sep : Char} {f : Fragment} (h : sep ∉ f.chars) : f.cutAt sep = none := by
  have hdrop := dropWhile_stop (p := (· != sep)) (a := f.chars) (b := [])
    (fun c hc => by simpa using fun he : c = sep => h (he ▸ hc)) (by simp)
  rw [List.append_nil] at hdrop
  rw [cutAt, hdrop]

/-- Trimming keeps a character that is not blank. -/
theorem trim_covers {f : Fragment} {a b : Text} {c : Char} (h : f.chars = a ++ c :: b)
    (hc : isBlank c = false) : f.trim.span.covers (f.start + Text.byteLength a) = true := by
  obtain ⟨before, after, hchars, hstart, hbefore, hafter, -⟩ := f.trim_spec
  have hout : ∀ {d e : Text}, d = c :: e → ¬ ∀ x ∈ d, isBlank x = true := by
    rintro d e rfl hblank
    rw [hblank c List.mem_cons_self] at hc
    cases hc
  rw [Span.covers_iff, span, stop, hstart]
  -- The character stands neither before nor behind what is kept.
  rcases List.append_eq_append_iff.1 (h.symm.trans hchars) with ⟨m, rfl, hm⟩ | ⟨m, rfl, hm⟩
  · cases m with
    | nil =>
      cases hkept : f.trim.chars with
      | nil => rw [hkept] at hm; exact absurd hafter (hout hm.symm)
      | cons d ds =>
        have hpos := d.utf8Size_pos
        simp only [List.append_nil, Text.byteLength_cons]
        omega
    | cons d m =>
      obtain ⟨rfl, -⟩ := List.cons.inj hm
      exact absurd (fun x hx => hbefore x (List.mem_append_right _ hx)) (hout rfl)
  · rcases List.append_eq_append_iff.1 hm with ⟨k, rfl, hk⟩ | ⟨k, hkept, hk⟩
    · exact absurd (fun x hx => hafter x (hk ▸ List.mem_append_right _ hx)) (hout rfl)
    · cases k with
      | nil => exact absurd hafter (hout (by simpa using hk.symm))
      | cons d k =>
        have hpos := d.utf8Size_pos
        simp only [hkept, Text.byteLength_append, Text.byteLength_cons]
        omega

end Fragment

end StyleServer
