/-
  Where a value begins among the pieces of a text.

  A value is cut from the characters of its body, behind the colon and the blanks there.  Among
  the pieces it begins between two of them or inside of a word.

  * `exists_reachesTo`: the pieces that reach to the start of a value.
  * `Text.BodyAt.separator`: a colon in a word is the one that the declaration is cut at.
  * `Declaration.exists_valueAt`: so the pieces around the value of a declaration are found.
-/
import StyleServer.Proofs.Sheet.Origin
import StyleServer.Proofs.Sheet.ValueParts

namespace StyleServer

/-! ## The start of a value -/

namespace Text

/-- Pieces are cut from what is left behind those before them. -/
theorem piecesFrom_split {place : Place} {text : Text} {front ps : List Piece}
    (h : piecesFrom place text = front ++ ps) :
    piecesFrom (place.afterAll front) (Piece.allChars ps) = ps := by
  induction front generalizing place text with
  | nil =>
    have hall := allChars_piecesFrom place text
    rw [h, List.nil_append] at hall
    rw [hall]
    exact h
  | cons p front ih =>
    cases text with
    | nil => simp [piecesFrom] at h
    | cons c cs =>
      rw [piecesFrom, List.cons_append] at h
      obtain ⟨hp, hrest⟩ := List.cons.inj h
      rw [hp] at hrest
      exact ih hrest

/-- A piece is cut off from the text that it stands in. -/
theorem cutsOff_of_split {place : Place} {text : Text} {front behind : List Piece} {p : Piece}
    (h : piecesFrom place text = front ++ p :: behind) :
    ∃ c cs, CutsOff (place.afterAll front) c cs p (Piece.allChars behind) := by
  have hsplit := piecesFrom_split h
  cases htext : Piece.allChars (p :: behind) with
  | nil => simp [htext, piecesFrom] at hsplit
  | cons c cs =>
    rw [htext, piecesFrom] at hsplit
    obtain ⟨hp, hrest⟩ := List.cons.inj hsplit
    have hall := allChars_piecesFrom (Place.after (place.afterAll front) p)
      (nextPiece (place.afterAll front) c cs).2
    rw [hp] at hrest
    rw [hrest] at hall
    exact ⟨c, cs, cutsOff_of_nextPiece (Prod.ext hp hall.symm)⟩

end Text

theorem CutsOff.chars_ne_nil {place : Place} {c : Char} {cs rest : Text} {p : Piece}
    (h : CutsOff place c cs p rest) : p.chars ≠ [] := by
  cases h <;> simp [Piece.chars]

theorem CutsOff.word_of_blank {place : Place} {c b : Char} {cs rest more : Text} {p : Piece}
    (h : CutsOff place c cs p rest) (hchars : p.chars = b :: more) (hb : isBlank b = true)
    (hm : p.mark? = none) : p = .blank b ∧ more = [] ∨ ∃ word, p = .word word := by
  cases h with
  | blank => exact Or.inl (by simpa [Piece.chars] using hchars)
  | word => exact Or.inr ⟨_, rfl⟩
  | mark => simp [Piece.mark?] at hm
  | block | line =>
    obtain rfl := (List.cons.inj hchars).1
    exact absurd hb (by decide)
  | quoted hs hq =>
    obtain rfl := (List.cons.inj hchars).1
    simp [isBlank_of_isQuote hq] at hb

/-- The pieces `front` end with a piece that stands before a value with all of its characters but
    those of `word`; the value begins behind the characters `before`. -/
structure ReachesTo (front : List Piece) (before word : Text) : Prop where
  split : ∃ init p start, front = init ++ [p] ∧ p.chars = start ++ word ∧
    before = Piece.allChars init ++ start ∧ start ≠ [] ∧ p.isOpen = false ∧
    (word ≠ [] → ∃ cs, p = .word cs)

/-- The value begins inside of a piece that reaches across the blanks at its front. -/
theorem ReachesTo.here {init : List Piece} {p : Piece} {start lead word : Text}
    (hp : p.chars = start ++ (lead ++ word)) (hopen : p.isOpen = false)
    (hword : lead ++ word ≠ [] → ∃ cs, p = .word cs) (hstart : start ++ lead ≠ []) :
    ReachesTo (init ++ [p]) (Piece.allChars init ++ start ++ lead) word :=
  ⟨init, p, start ++ lead, rfl, by simp [hp], by simp, hstart, hopen,
    fun hne => hword fun h => hne (List.append_eq_nil_iff.1 h).2⟩

/-- **The start of a value among the pieces:** behind the blanks at its front, the value begins
    between two pieces or inside of a word. -/
theorem exists_reachesTo {place : Place} {text : Text} {init ps behind : List Piece} {p : Piece}
    (htext : Text.piecesFrom place text = init ++ p :: (ps ++ behind)) (hu : Piece.Unmarked ps)
    {start word lead value : Text} (hp : p.chars = start ++ word) (hopen : p.isOpen = false)
    (hword : word ≠ [] → ∃ cs, p = .word cs) (hstart : start ++ lead ≠ [])
    (heq : word ++ Piece.allChars ps = lead ++ value) (hlead : ∀ c ∈ lead, isBlank c = true)
    (hvalue : value ≠ []) :
    ∃ more rest word', ps = more ++ rest ∧ value = word' ++ Piece.allChars rest ∧
      ReachesTo (init ++ p :: more) (Piece.allChars init ++ start ++ lead) word' := by
  induction ps generalizing init p start word lead with
  | nil =>
    rcases List.append_eq_append_iff.1 heq with ⟨inside, -, hr⟩ | ⟨word', rfl, hv⟩
    · exact absurd (List.append_eq_nil_iff.1 hr.symm).2 hvalue
    · exact ⟨[], [], word', rfl, hv, .here hp hopen hword hstart⟩
  | cons q ps ih =>
    rcases List.append_eq_append_iff.1 heq with ⟨inside, rfl, hr⟩ | ⟨word', rfl, hv⟩
    · cases inside with
      | nil =>
        rw [List.append_nil] at hstart ⊢
        exact ⟨[], q :: ps, [], rfl, hr.symm,
          .here (by simpa using hp) hopen (by simpa using hword) hstart⟩
      | cons b inside =>
        have htext' : Text.piecesFrom place text = (init ++ [p]) ++ q :: (ps ++ behind) := by
          simpa using htext
        obtain ⟨c, cs, hcut⟩ := Text.cutsOff_of_split htext'
        have hups : Piece.Unmarked ps := fun r hr => hu r (List.mem_cons_of_mem _ hr)
        obtain ⟨d, ds, hq⟩ := List.exists_cons_of_ne_nil hcut.chars_ne_nil
        rw [Piece.allChars_cons, hq, List.cons_append, List.cons_append] at hr
        obtain ⟨rfl, htail⟩ := List.cons.inj hr
        have hinside : ∀ c ∈ d :: inside, isBlank c = true := fun c hc => hlead c (by simp [hc])
        -- The blanks go on in `q`, which is a blank or a word that begins with one.
        have hgo : ∃ more rest word', ps = more ++ rest ∧ value = word' ++ Piece.allChars rest ∧
            ReachesTo (init ++ [p] ++ q :: more) (Piece.allChars (init ++ [p]) ++ d :: inside)
              word' := by
          rcases hcut.word_of_blank hq (hinside d List.mem_cons_self) (hu q List.mem_cons_self) with
            ⟨rfl, rfl⟩ | ⟨cs, rfl⟩
          · have hchars : (Piece.blank d).chars = [d] ++ [] := rfl
            have h := ih htext' hups hchars rfl (by simp) (by simp) htail
              fun c hc => hinside c (List.mem_cons_of_mem _ hc)
            simpa using h
          · have hchars : (Piece.word cs).chars = [] ++ d :: ds := hq
            have hvalue' : d :: ds ++ Piece.allChars ps = d :: inside ++ value :=
              congrArg (d :: ·) htail
            have h := ih htext' hups hchars rfl (fun _ => ⟨cs, rfl⟩) (by simp) hvalue' hinside
            simpa using h
        obtain ⟨more, rest, word', rfl, hv, hreach⟩ := hgo
        refine ⟨q :: more, rest, word', rfl, hv, ?_⟩
        simpa [hp] using hreach
    · exact ⟨[], q :: ps, word', rfl, hv, .here hp hopen hword hstart⟩

/-- Pieces that end before the value begins are among those before its word. -/
theorem ReachesTo.lt_start {front b gap : List Piece} {before word : Text} {p : Piece}
    (h : ReachesTo front before word) (heq : front = b ++ p :: gap) :
    Text.byteLength (Piece.allChars b) < Text.byteLength before := by
  obtain ⟨init, q, start, rfl, -, rfl, hstart, -⟩ := h.split
  have hpos := Text.byteLength_pos hstart
  rcases List.eq_nil_or_concat gap with rfl | ⟨gap, r, rfl⟩
  · obtain ⟨rfl, -⟩ := List.append_inj' heq rfl
    rw [Text.byteLength_append]
    omega
  · rw [List.concat_eq_append, ← List.cons_append, ← List.append_assoc] at heq
    obtain ⟨rfl, -⟩ := List.append_inj' heq rfl
    rw [Piece.allChars_append, Text.byteLength_append, Text.byteLength_append]
    omega

theorem ReachesTo.allChars_eq {front : List Piece} {before word : Text}
    (h : ReachesTo front before word) : Piece.allChars front = before ++ word := by
  obtain ⟨init, p, start, rfl, hp, rfl, -⟩ := h.split
  simp [hp]

theorem ReachesTo.not_open {front : List Piece} {before word : Text}
    (h : ReachesTo front before word) : ∀ p ∈ front.getLast?, p.isOpen = false := by
  obtain ⟨init, p, start, rfl, -, -, -, hopen, -⟩ := h.split
  simpa using hopen

/-- The second search passes over the rest of the word that the value begins in. -/
theorem ReachesTo.passesOver {place : Place} {text : Text} {front rest after : List Piece}
    {before word : Text} (h : ReachesTo front before word)
    (htext : Text.piecesFrom place text = front ++ (rest ++ after)) :
    PassesOver word (Piece.allChars rest) := by
  obtain ⟨init, p, start, rfl, hp, -, hstart, -, hword⟩ := h.split
  cases word with
  | nil => trivial
  | cons w ws =>
    obtain ⟨cs, rfl⟩ := hword (by simp)
    rw [List.append_assoc, List.singleton_append] at htext
    obtain ⟨c, cs', hcut⟩ := Text.cutsOff_of_split htext
    obtain ⟨d, start, rfl⟩ := List.exists_cons_of_ne_nil hstart
    generalize hrest : Piece.allChars (rest ++ after) = left at hcut
    cases hcut with
    | word hs hq =>
      obtain ⟨-, hsplit⟩ := List.cons.inj hp
      have hpre : Piece.allChars rest <+: (wordRest cs').2 :=
        ⟨_, by rw [← hrest, Piece.allChars_append]⟩
      have hover := wordRest_passesOver hpre
      rw [hsplit] at hover
      exact hover.suffix

/-! ## Where things stand -/

namespace Piece

theorem split_before {x y front rest : List Piece} {p : Piece} (h : x ++ p :: y = front ++ rest)
    (hp : p.chars ≠ [])
    (hle : Text.byteLength (allChars front) ≤ Text.byteLength (allChars x)) :
    ∃ m, x = front ++ m ∧ rest = m ++ p :: y := by
  rcases List.append_eq_append_iff.1 h with ⟨m, rfl, hm⟩ | ⟨m, hx, hr⟩
  · cases m with
    | nil => exact ⟨[], by simp, by simpa using hm.symm⟩
    | cons q m =>
      obtain ⟨rfl, -⟩ := List.cons.inj hm
      have hpos := Text.byteLength_pos hp
      simp only [allChars_append, allChars_cons, Text.byteLength_append] at hle
      omega
  · exact ⟨m, hx, hr⟩

theorem split_behind {x y front rest : List Piece} {p : Piece} (h : x ++ p :: y = front ++ rest)
    (hlt : Text.byteLength (allChars x) < Text.byteLength (allChars front)) :
    ∃ m, front = x ++ p :: m ∧ y = m ++ rest := by
  rcases List.append_eq_append_iff.1 h with ⟨m, rfl, hm⟩ | ⟨m, rfl, -⟩
  · cases m with
    | nil => simp at hlt
    | cons q m =>
      obtain ⟨rfl, hy⟩ := List.cons.inj hm
      exact ⟨m, rfl, hy⟩
  · simp only [allChars_append, Text.byteLength_append] at hlt
    omega

/-- A piece stands in the second of three runs of pieces if its characters `t` begin there. -/
theorem split_inside {x y a b c : List Piece} {p : Piece} (h : x ++ p :: y = a ++ (b ++ c))
    {s t : Text} (hp : p.chars = s ++ t) (ht : t ≠ [])
    (hle : Text.byteLength (allChars a) ≤ Text.byteLength (allChars x ++ s))
    (hlt : Text.byteLength (allChars x ++ s) < Text.byteLength (allChars (a ++ b))) :
    ∃ x' y', x = a ++ x' ∧ b = x' ++ p :: y' ∧ y = y' ++ c := by
  have hpos := Text.byteLength_pos ht
  simp only [allChars_append, Text.byteLength_append] at hle hlt
  rcases Nat.lt_or_ge (Text.byteLength (allChars x)) (Text.byteLength (allChars a)) with hx | hx
  · obtain ⟨m, rfl, -⟩ := split_behind h hx
    simp only [allChars_append, allChars_cons, hp, Text.byteLength_append] at hle
    omega
  · obtain ⟨x', rfl, hbc⟩ := split_before h (by simp [hp, ht]) hx
    rw [allChars_append, Text.byteLength_append] at hlt
    obtain ⟨y', hb, hy⟩ := split_behind hbc.symm (by omega)
    exact ⟨x', y', rfl, hb, hy⟩

end Piece

/-- The only separator in a stretch of text is where a separator stands in it. -/
theorem Text.separator_unique {sep : Char} {a b p s t q : Text}
    (h : a ++ sep :: b = p ++ (s ++ sep :: (t ++ q))) (hs : sep ∉ s) (ht : sep ∉ t)
    (hle : Text.byteLength p ≤ Text.byteLength a)
    (hlt : Text.byteLength a < Text.byteLength (p ++ s ++ sep :: t)) :
    a = p ++ s ∧ b = t ++ q := by
  obtain ⟨m, rfl, hm⟩ := Text.append_split h.symm hle
  rcases List.append_eq_append_iff.1 hm with ⟨k, rfl, hk⟩ | ⟨k, rfl, hk⟩
  · cases k with
    | nil => exact ⟨by simp, by simpa using hk.symm⟩
    | cons c k =>
      -- A separator behind the one of the stretch would stand in `t`.
      obtain ⟨rfl, htail⟩ := List.cons.inj hk
      rcases List.append_eq_append_iff.1 htail with ⟨j, rfl, -⟩ | ⟨j, rfl, hj⟩
      · simp only [Text.byteLength_append, Text.byteLength_cons] at hlt
        omega
      · cases j with
        | nil =>
          simp only [List.append_nil, Text.byteLength_append, Text.byteLength_cons] at hlt
          omega
        | cons d j =>
          obtain ⟨rfl, -⟩ := List.cons.inj hj
          exact absurd (by simp) ht
  · cases k with
    | nil => exact ⟨by simp, by simpa using hk⟩
    | cons c k =>
      obtain ⟨rfl, -⟩ := List.cons.inj hk
      exact absurd (by simp) hs

/-! ## The value among the pieces -/

/-- The pieces around a value: it begins in the last of the pieces `front`, which goes on with
    `word`, or right behind that piece; it goes on with the pieces `rest`, and no more than the
    blanks `blanks` stand behind it there. -/
structure Text.ValueAt (text : Text) (value : Fragment) (front rest after : List Piece)
    (before word blanks : Text) : Prop where
  pieces_eq : text.pieces = front ++ (rest ++ after)
  reaches : ReachesTo front before word
  start_eq : value.start = Text.byteLength before
  chars_eq : value.chars ++ blanks = word ++ Piece.allChars rest
  blank : ∀ c ∈ blanks, isBlank c = true
  unmarked : Piece.Unmarked rest
  inside : (Place.origin.afterAll front).statementStart = false

/-- A colon between the name and the value stands in a word, not in a comment or a string. -/
def Declaration.ColonInWord (text : Text) (d : Declaration) : Prop :=
  ∃ front start tail behind, text.pieces = front ++ .word (start ++ ':' :: tail) :: behind ∧
    d.nameSpan.stop ≤ Text.byteLength (Piece.allChars front ++ start) ∧
    Text.byteLength (Piece.allChars front ++ start) < d.valueSpan.start

/-- A declaration in a body: its name, its colon and its value, with blanks around them. -/
theorem Declaration.ofFragment?_split {f : Fragment} {d : Declaration}
    (h : ofFragment? f = some d) : ∃ name value : Fragment, ∃ b₁ b₂ b₃ b₄ : Text,
      d = ofParts name value ∧
      f.chars = b₁ ++ name.chars ++ b₂ ++ ':' :: (b₃ ++ (value.chars ++ b₄)) ∧
      name.stop = f.start + Text.byteLength (b₁ ++ name.chars) ∧
      value.start = f.start + Text.byteLength (b₁ ++ name.chars ++ b₂ ++ ':' :: b₃) ∧
      (∀ c ∈ b₂, isBlank c = true) ∧ (∀ c ∈ b₃, isBlank c = true) ∧ ∀ c ∈ b₄, isBlank c = true := by
  obtain ⟨before, behind, hcut, -, rfl⟩ := ofFragment?_parts h
  obtain ⟨b₁, b₂, hname, hstart, -, hb₂, -⟩ := before.trim_spec
  obtain ⟨b₃, b₄, hvalue, hstart', hb₃, hb₄, -⟩ := behind.trim_spec
  obtain ⟨hchars, hbefore, hbehind⟩ := Fragment.cutAt_split hcut
  refine ⟨before.trim, behind.trim, b₁, b₂, b₃, b₄, rfl, ?_, ?_, ?_, hb₂, hb₃, hb₄⟩
  · rw [hchars, hname, hvalue]
    simp
  · simp only [Fragment.stop, hstart, hbefore, Text.byteLength_append]
    omega
  · rw [hstart', hbehind, hname]
    simp only [Text.byteLength_append, Text.byteLength_cons]
    omega

/-- A separator in a word is the one that a body has in the stretch `s ++ sep :: t`, if it stands
    there. -/
theorem Text.BodyAt.separator {text : Text} {f : Fragment} {before body after : List Piece}
    (h : text.BodyAt f before body after) {sep : Char} {r s t q : Text}
    (hchars : f.chars = r ++ s ++ sep :: (t ++ q)) (hs : sep ∉ s) (ht : sep ∉ t)
    {x y : List Piece} {start tail : Text}
    (hpieces : text.pieces = x ++ .word (start ++ sep :: tail) :: y)
    (hle : f.start + Text.byteLength r ≤ Text.byteLength (Piece.allChars x ++ start))
    (hlt : Text.byteLength (Piece.allChars x ++ start) <
      f.start + Text.byteLength (r ++ s ++ sep :: t)) :
    ∃ x' y', x = before ++ x' ∧ body = x' ++ .word (start ++ sep :: tail) :: y' ∧ y = y' ++ after ∧
      Piece.allChars x ++ start = Piece.allChars before ++ r ++ s ∧
      tail ++ Piece.allChars y' = t ++ q := by
  obtain ⟨rfl⟩ := h.fragment_eq
  replace hchars : Piece.allChars body = r ++ s ++ sep :: (t ++ q) := hchars
  rw [← Text.byteLength_append] at hle hlt
  have htext : (Piece.allChars x ++ start) ++ sep :: (tail ++ Piece.allChars y) =
      (Piece.allChars before ++ r) ++ (s ++ sep :: (t ++ (q ++ Piece.allChars after))) := by
    have htext := h.text_eq
    rw [hchars, ← Text.allChars_pieces text, hpieces] at htext
    simpa [Piece.chars] using htext
  obtain ⟨hx, hy⟩ := Text.separator_unique htext hs ht hle (by simpa using hlt)
  have hinside : Text.byteLength (Piece.allChars x ++ start) <
      Text.byteLength (Piece.allChars (before ++ body)) := by
    have hsep := sep.utf8Size_pos
    rw [hx, Piece.allChars_append, hchars]
    simp only [Text.byteLength_append, Text.byteLength_cons]
    omega
  have hword : (Piece.word (start ++ sep :: tail)).chars = start ++ sep :: tail := rfl
  obtain ⟨x', y', rfl, hbody, rfl⟩ := Piece.split_inside (hpieces.symm.trans h.pieces_eq) hword
    (by simp) (Nat.le_trans (by simp) hle) hinside
  refine ⟨x', y', rfl, hbody, rfl, hx, ?_⟩
  rw [Piece.allChars_append, ← List.append_assoc, ← List.append_assoc] at hy
  exact List.append_cancel_right hy

/-- **The value of a declaration among the pieces,** where the colon stands in a word. -/
theorem Declaration.exists_valueAt {text : Text} {f : Fragment} {d : Declaration}
    (hf : text.HasBody f) (hd : ofFragment? f = some d) (hcolon : d.ColonInWord text) :
    ∃ name value : Fragment, d = ofParts name value ∧ value.In text ∧ (value.chars ≠ [] →
      ∃ front rest after before word blanks,
        text.ValueAt value front rest after before word blanks) := by
  obtain ⟨before, body, after, hbody⟩ := hf
  obtain ⟨name, value, b₁, b₂, b₃, b₄, rfl, hchars, hname, hvalue, hb₂, hb₃, hb₄⟩ :=
    ofFragment?_split hd
  have hin : value.PartOf f :=
    ⟨b₁ ++ name.chars ++ b₂ ++ ':' :: b₃, b₄, by simpa using hchars, hvalue⟩
  refine ⟨name, value, rfl, hin.in_text (Text.HasBody.in_text ⟨_, _, _, hbody⟩), fun hne => ?_⟩
  obtain ⟨x, start, tail, y, hpieces, hle, hlt⟩ := hcolon
  replace hle : name.stop ≤ Text.byteLength (Piece.allChars x ++ start) := hle
  replace hlt : Text.byteLength (Piece.allChars x ++ start) < value.start := hlt
  rw [hname] at hle
  rw [hvalue] at hlt
  have hfree : ∀ b : Text, (∀ c ∈ b, isBlank c = true) → ':' ∉ b := fun b hb hmem =>
    absurd (hb ':' hmem) (by decide)
  obtain ⟨x', y', rfl, hsplit, rfl, hx, htail⟩ :=
    hbody.separator hchars (hfree b₂ hb₂) (hfree b₃ hb₃) hpieces hle hlt
  have hu : Piece.Unmarked y' := fun p hp => hbody.unmarked p (by rw [hsplit]; simp [hp])
  have hword : (Piece.word (start ++ ':' :: tail)).chars = (start ++ [':']) ++ tail := by
    simp [Piece.chars]
  obtain ⟨more, rest, word, rfl, hrest, hreach⟩ := exists_reachesTo hpieces hu hword rfl
    (fun _ => ⟨_, rfl⟩) (by simp) htail hb₃ (by simp [hne])
  refine ⟨_, rest, after, _, word, b₄, by simpa using hpieces, hreach, ?_, hrest, hb₄,
    fun p hp => hu p (List.mem_append_right _ hp), ?_⟩
  · have hstart : f.start = Text.byteLength (Piece.allChars before) :=
      congrArg Fragment.start hbody.fragment_eq
    have hsize := congrArg Text.byteLength hx
    rw [hvalue, hstart]
    simp only [Text.byteLength_append, Text.byteLength_cons, Text.byteLength_nil] at hsize ⊢
    omega
  · have hmore : Piece.Unmarked more := fun p hp => hu p (List.mem_append_left _ hp)
    rw [Place.afterAll, List.foldl_append]
    exact Place.afterAll_inside hmore rfl

end StyleServer
