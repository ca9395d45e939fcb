/-
  The references of a value, and where they stand.

  References are searched from the left.  One begins at the border of a word, and behind its name
  the search goes on.

  * `Reference.In`: a reference occurs in a value, character by character.
  * `referencesFrom_leftmost`: the search finds the occurrences from the left.
  * `Reference.In.begins_in_name`: where one begins inside of another, it begins inside its name.
  * `Reference.In.not_crosses`: none goes over a comma or a closing parenthesis.
  * `variableRefs_append`: the references on either side of one are found alone.
  * `Text.ReferencesComplete`, `variableRefs_complete`: all of this about one value.
-/
import StyleServer.Proofs.Sheet.References
import StyleServer.Proofs.Text.Leftmost

namespace StyleServer

/-! ## Borders of words -/

/-- Between two texts, one side is a character of a word and the other is not. -/
def Text.WordBorder (before after : Text) : Prop :=
  before.getLast?.any isWordChar ≠ after.head?.any isWordChar

theorem isWordChar_of_toLower {c : Char} (h : c.toLower = 'v') : isWordChar c = true := by
  unfold Char.toLower at h
  split at h
  · have hval : c.val + 32 = 'V'.val + 32 := congrArg Char.val h
    have hc : c = 'V' := Char.ext ((UInt32.add_left_inj 32).1 hval)
    rw [hc]
    decide +kernel
  · rw [h]
    decide +kernel

/-- Before a character of a word there is a border, unless another one stands before it. -/
theorem Text.wordBorder_cons {c : Char} (hc : isWordChar c = true) (before after : Text) :
    before.WordBorder (c :: after) ↔ behindWord false before = false := by
  rw [WordBorder, behindWord, List.head?_cons, Option.any_some, hc]
  cases before.getLast? with
  | none => simp
  | some d => simp

/-! ## Occurrences -/

namespace Reference

/-- The reference with an opening that begins at a byte offset, and with a name. -/
def ofParts (offset : Nat) (opening name : Text) : Reference where
  whole := ⟨offset, offset + opening.byteLength + name.byteLength⟩
  ref := ⟨String.ofList name,
    ⟨offset + opening.byteLength, offset + opening.byteLength + name.byteLength⟩⟩

/-- The value is `before`, the reference and `after`.  The reference begins at the border of a
    word, and its name goes as far as it can. -/
structure Between (m : Reference) (value before opening name after : Text) : Prop where
  value_eq : value = before ++ (opening ++ (name ++ after))
  border : before.WordBorder (opening ++ (name ++ after))
  isOpening : IsOpening opening
  isName : IsVariableName name
  ends : ∀ c ∈ after.head?, isReferenceChar c = false
  eq_ofParts : m = ofParts before.byteLength opening name

/-- The reference occurs in a value. -/
def In (m : Reference) (value : Text) : Prop :=
  ∃ before opening name after, m.Between value before opening name after

variable {m n : Reference} {value : Text}

theorem opening_border {opening : Text} (h : IsOpening opening) (before after : Text) :
    before.WordBorder (opening ++ after) ↔ behindWord false before = false := by
  obtain @⟨v, a, r, between, behind, ⟨hv, -, -⟩, -, -⟩ := h
  exact Text.wordBorder_cons (isWordChar_of_toLower hv) before _

/-- A reference occurs where a text can be cut into what stands before it and a text that begins
    with it. -/
theorem in_iff : m.In value ↔ ∃ before rest opening name after, value = before ++ rest ∧
    behindWord false before = false ∧ referenceAt? rest = some (opening, name, after) ∧
    m = ofParts before.byteLength opening name := by
  constructor
  · rintro ⟨before, opening, name, after, h⟩
    exact ⟨before, _, opening, name, after, h.value_eq, (opening_border h.isOpening _ _).1 h.border,
      referenceAt?_eq_some_iff.2 ⟨rfl, h.isOpening, h.isName, h.ends⟩, h.eq_ofParts⟩
  · rintro ⟨before, rest, opening, name, after, rfl, hbefore, hrest, hm⟩
    obtain ⟨rfl, hopening, hname, hends⟩ := referenceAt?_eq_some_iff.1 hrest
    exact ⟨before, opening, name, after, rfl, (opening_border hopening _ _).2 hbefore, hopening,
      hname, hends, hm⟩

/-- Where a reference begins, there is no other one. -/
theorem In.eq_of_start (hm : m.In value) (hn : n.In value) (h : m.whole.start = n.whole.start) :
    m = n := by
  obtain ⟨before, rest, opening, name, after, rfl, -, hrest, rfl⟩ := in_iff.1 hm
  obtain ⟨before', rest', opening', name', after', heq, -, hrest', rfl⟩ := in_iff.1 hn
  have hsize : before.byteLength = before'.byteLength := h
  obtain ⟨rfl, rfl⟩ := Text.append_inj heq hsize
  rw [hrest'] at hrest
  cases hrest
  rfl

/-- The name of a reference is the part of the value at its span. -/
theorem In.slice?_name (h : m.In value) : value.slice? m.ref.span = some m.ref.name.toList := by
  obtain ⟨before, opening, name, after, h⟩ := h
  have hname : Fragment.In ⟨before.byteLength + opening.byteLength, name⟩ value :=
    ⟨before ++ opening, after, by rw [h.value_eq]; simp, Text.byteLength_append _ _⟩
  rw [h.eq_ofParts]
  simpa [ofParts, Fragment.span, Fragment.stop] using hname.slice?_span

end Reference

/-! ## The search -/

/-- No reference begins where the search finds none. -/
theorem Reference.In.start_of_none {m : Reference} {before cs : Text} {c : Char}
    (h : (if behindWord false before = true then none else referenceAt? (c :: cs)) = none)
    (hm : m.In (before ++ c :: cs)) (hle : before.byteLength ≤ m.whole.start) :
    before.byteLength + c.utf8Size ≤ m.whole.start := by
  obtain ⟨before', rest, opening, name, after, heq, hbefore, hrest, rfl⟩ := in_iff.1 hm
  obtain ⟨between, rfl, hbetween⟩ := Text.append_split heq hle
  cases between with
  | nil =>
    -- The reference begins right here, so the search would have found it.
    rw [List.append_nil] at hbefore
    rw [List.nil_append] at hbetween
    rw [hbefore, hbetween, hrest] at h
    simp at h
  | cons d between =>
    obtain rfl : c = d := (List.cons.inj hbetween).1
    simp only [ofParts, Text.byteLength_append, Text.byteLength_cons]
    omega

/-- **The search finds the references** from the left, from where it stands. -/
theorem referencesFrom_leftmost (before rest : Text) :
    Leftmost (Reference.In · (before ++ rest)) Reference.whole before.byteLength
      (referencesFrom (behindWord false before) before.byteLength rest) := by
  induction hn : rest.length using Nat.strongRecOn generalizing before rest with
  | _ n ih =>
  cases rest with
  | nil =>
    rw [referencesFrom]
    refine .none fun m hm => ?_
    obtain ⟨before', rest, opening, name, after, heq, -, hrest, rfl⟩ := Reference.in_iff.1 hm
    have hpos : 0 < rest.byteLength := by
      refine Text.byteLength_pos ?_
      rintro rfl
      simp [referenceAt?, referenceOpening?] at hrest
    rw [List.append_nil] at heq
    rw [heq, Text.byteLength_append]
    simp only [Reference.ofParts]
    omega
  | cons c cs =>
    cases h : if behindWord false before = true then none else referenceAt? (c :: cs) with
    | none =>
      have hfound := ih cs.length (by rw [← hn]; simp) (before ++ [c]) cs rfl
      have htext : before ++ [c] ++ cs = before ++ c :: cs := by simp
      have hsize : Text.byteLength (before ++ [c]) = before.byteLength + c.utf8Size := by simp
      have hword : behindWord false (before ++ [c]) = isWordChar c := behindWord_append ..
      rw [htext, hsize, hword] at hfound
      rw [referencesFrom_none h]
      exact hfound.earlier (Nat.le_add_right _ _) fun m hm hle => hm.start_of_none h hle
    | some found =>
      obtain ⟨opening, name, after⟩ := found
      obtain ⟨hword, hat⟩ := Option.ite_none_left_eq_some.1 h
      have hcs : c :: cs = opening ++ name ++ after := referenceAt?_append hat
      have hlong := referenceAt?_name_length hat
      have hlength : after.length < n := by
        rw [← hn, hcs]
        simp only [List.length_append]
        omega
      have hfound := ih after.length hlength (before ++ (opening ++ name)) after rfl
      have htext : before ++ (opening ++ name) ++ after = before ++ c :: cs := by
        rw [hcs, List.append_assoc]
      have hsize : Text.byteLength (before ++ (opening ++ name)) =
          before.byteLength + opening.byteLength + name.byteLength := by
        rw [Text.byteLength_append, Text.byteLength_append, Nat.add_assoc]
      have hbehind : behindWord false (before ++ (opening ++ name)) = behindWord false name := by
        rw [← List.append_assoc, behindWord_append]
        exact behindWord_of_ne_nil (List.ne_nil_of_length_pos (by omega)) _ _
      rw [htext, hsize, hbehind] at hfound
      have hin : (Reference.ofParts before.byteLength opening name).In (before ++ c :: cs) :=
        Reference.in_iff.2 ⟨before, _, opening, name, after, rfl, by simpa using hword, hat, rfl⟩
      rw [referencesFrom_some h]
      exact .next hin (Nat.le_refl _) (fun _ _ hle => hle) hfound

/-! ## What is passed over -/

/-- Behind its first character, an opening has blanks, two letters and a parenthesis. -/
theorem IsOpening.exists_tail {opening : Text} (h : IsOpening opening) :
    ∃ v tail, opening = v :: tail ∧ v.toLower = 'v' ∧
      ∀ c ∈ tail, isBlank c = true ∨ c.toLower = 'a' ∨ c.toLower = 'r' ∨ c = '(' := by
  obtain @⟨v, a, r, between, behind, ⟨hv, ha, hr⟩, hbetween, hbehind⟩ := h
  refine ⟨v, _, rfl, hv, fun c hc => ?_⟩
  simp only [List.mem_cons, List.mem_append] at hc
  rcases hc with rfl | rfl | hc | rfl | hc
  · exact .inr (.inl ha)
  · exact .inr (.inr (.inl hr))
  · exact .inl (hbetween c hc)
  · exact .inr (.inr (.inr rfl))
  · exact .inl (hbehind c hc)

namespace Reference

variable {m n : Reference} {value a b : Text} {c : Char}

/-- A reference that begins inside of another one begins inside its name. -/
theorem In.begins_in_name (hm : m.In value) (hn : n.In value)
    (h : n.whole.covers m.whole.start = true) :
    m = n ∨ n.ref.span.covers m.whole.start = true := by
  rw [Span.covers_iff] at h
  obtain ⟨before, opening, name, after, hat⟩ := hm
  obtain ⟨before', opening', name', after', hat'⟩ := hn
  have hstart : m.whole.start = before.byteLength := by rw [hat.eq_ofParts]; rfl
  have hstart' : n.whole.start = before'.byteLength := by rw [hat'.eq_ofParts]; rfl
  have hname : n.ref.span.start = before'.byteLength + opening'.byteLength := by
    rw [hat'.eq_ofParts]; rfl
  have hstop : n.ref.span.stop = n.whole.stop := by rw [hat'.eq_ofParts]; rfl
  by_cases hbehind : n.ref.span.start ≤ m.whole.start
  · right
    rw [Span.covers_iff]
    omega
  · left
    refine In.eq_of_start ⟨_, _, _, _, hat⟩ ⟨_, _, _, _, hat'⟩ ?_
    obtain ⟨between, rfl, hrest⟩ := Text.append_split (hat'.value_eq.symm.trans hat.value_eq)
      (by omega)
    rw [Text.byteLength_append] at hstart
    obtain ⟨left, hleft, hnext⟩ := Text.append_split hrest.symm (by omega)
    cases between with
    | nil => rw [hstart, hstart', Text.byteLength_nil, Nat.add_zero]
    | cons d between =>
      -- It would begin with a character of the opening that cannot begin one.
      cases left with
      | nil =>
        rw [List.append_nil] at hleft
        rw [hleft] at hname
        omega
      | cons e left =>
        obtain ⟨v, tail, hopening, hv, -⟩ := hat.isOpening.exists_tail
        obtain ⟨v', tail', hopening', -, htail'⟩ := hat'.isOpening.exists_tail
        rw [hopening] at hnext
        obtain rfl : v = e := (List.cons.inj hnext).1
        obtain rfl : tail' = between ++ v :: left :=
          (List.cons.inj (hopening'.symm.trans hleft)).2
        rcases htail' v (by simp) with hblank | ha | hr | rfl
        · exact absurd hv (toLower_ne_of_isBlank hblank).1
        · exact absurd (hv.symm.trans ha) (by decide)
        · exact absurd (hv.symm.trans hr) (by decide)
        · exact absurd hv (by decide)

/-! ## Commas and closing parentheses -/

/-- No comma and no closing parenthesis is a part of a reference. -/
theorem Between.not_mem {before opening name after : Text}
    (h : m.Between value before opening name after) (hc : c = ',' ∨ c = ')') :
    c ∉ opening ++ name := by
  have hletters : c.toLower ≠ 'v' ∧ c.toLower ≠ 'a' ∧ c.toLower ≠ 'r' := by
    rcases hc with rfl | rfl <;> decide
  have hmarks : c ≠ '(' ∧ c ≠ '-' ∧ isBlank c = false ∧ isReferenceChar c = false := by
    rcases hc with rfl | rfl <;> decide
  intro hmem
  rcases List.mem_append.1 hmem with hmem | hmem
  · obtain ⟨v, tail, rfl, hv, htail⟩ := h.isOpening.exists_tail
    rcases List.mem_cons.1 hmem with rfl | hmem
    · exact hletters.1 hv
    · rcases htail c hmem with hblank | ha | hr | hparen
      · exact absurd hblank (by simp [hmarks.2.2.1])
      · exact hletters.2.1 ha
      · exact hletters.2.2 hr
      · exact hmarks.1 hparen
  · obtain @⟨chars, -, hchars⟩ := h.isName
    simp only [List.mem_cons] at hmem
    rcases hmem with hdash | hdash | hmem
    · exact hmarks.2.1 hdash
    · exact hmarks.2.1 hdash
    · exact absurd (hchars c hmem) (by simp [hmarks.2.2.2])

/-- A reference does not go over a comma or a closing parenthesis. -/
theorem In.not_crosses (hc : c = ',' ∨ c = ')') (h : m.In (a ++ c :: b)) :
    ¬ m.whole.Crosses a.byteLength := by
  rintro ⟨hstart, hstop⟩
  obtain ⟨before, opening, name, after, hat⟩ := h
  have hwhole : m.whole = ⟨before.byteLength,
      before.byteLength + opening.byteLength + name.byteLength⟩ := by rw [hat.eq_ofParts]; rfl
  rw [hwhole] at hstart hstop
  obtain ⟨front, rfl, hrest⟩ := Text.append_split hat.value_eq.symm (Nat.le_of_lt hstart)
  rw [← List.append_assoc] at hrest
  simp only [Text.byteLength_append] at hstop
  obtain ⟨back, hback, hnext⟩ := Text.append_split hrest.symm
    (by rw [Text.byteLength_append]; omega)
  cases back with
  | nil =>
    have hsize := congrArg Text.byteLength hback
    simp only [Text.byteLength_append, Text.byteLength_nil] at hsize
    omega
  | cons d back =>
    obtain rfl : c = d := (List.cons.inj hnext).1
    exact hat.not_mem hc (by rw [hback]; simp)

end Reference

/-- The references of a value are those of a value at offset zero, further back. -/
theorem variableRefs_eq (value : Text) (start : Nat) :
    variableRefs value start = (variableRefsFrom false 0 value).map (VariableRef.shift start) := by
  rw [variableRefs, ← variableRefsFrom_shift, Nat.zero_add]

/-- **On either side of a comma or a closing parenthesis,** references are found alone. -/
theorem variableRefs_append {c : Char} (hc : c = ',' ∨ c = ')') (a b : Text) (start : Nat) :
    variableRefs (a ++ c :: b) start = variableRefs a start ++
      (variableRefs b start).map (VariableRef.shift (a.byteLength + 1)) := by
  have hsplit : variableRefsFrom false 0 (a ++ c :: b) =
      variableRefsFrom false 0 a ++ variableRefsFrom false (a.byteLength + 1) b := by
    have hnone : referenceAt? (c :: b) = none :=
      referenceAt?_eq_none (by rcases hc with rfl | rfl <;> decide) b
    have hword : isWordChar c = false := by rcases hc with rfl | rfl <;> decide +kernel
    have hsize : c.utf8Size = 1 := by rcases hc with rfl | rfl <;> rfl
    have hfound := referencesFrom_leftmost [] (a ++ c :: b)
    have happend : referencesFrom false 0 (a ++ c :: b) = referencesFrom false 0 a ++
        referencesFrom (behindWord false a) (0 + a.byteLength) (c :: b) := by
      refine referencesFrom_append fun m hm => ?_
      rw [Nat.zero_add]
      exact (hfound.occurs_of_mem hm).not_crosses hc
    have hskip : (if behindWord false a = true then none else referenceAt? (c :: b)) = none := by
      simp [hnone]
    rw [referencesFrom_none hskip, hword, hsize, Nat.zero_add] at happend
    have hrefs := congrArg (List.map Reference.ref) happend
    simpa only [List.map_append, map_ref_referencesFrom] using hrefs
  rw [variableRefs_eq, hsplit, List.map_append, ← variableRefs_eq, ← variableRefsFrom_shift,
    Nat.add_comm, variableRefsFrom_shift]
  rfl

/-! ## Values -/

/-- What the references of a value are. -/
structure Text.ReferencesComplete (value : Text) : Prop where
  /-- There is one way to find references from the left. -/
  unique : ∃! found, Leftmost (Reference.In · value) Reference.whole 0 found
  /-- What is found is listed, further back by where the value begins. -/
  listed : ∀ found, Leftmost (Reference.In · value) Reference.whole 0 found → ∀ start,
    variableRefs value start = found.map fun m => m.ref.shift start
  sliced : ∀ start, ∀ r ∈ variableRefs value start, ∃ span, r.span = span.shift start ∧
    value.slice? span = some r.name.toList
  /-- A reference that is not listed begins inside the name of one that is. -/
  passed_over : ∀ m : Reference, m.In value → ∀ start,
    m.ref.shift start ∈ variableRefs value start ∨
      ∃ r ∈ variableRefs value start, r.span.covers (m.whole.start + start) = true
  /-- On either side of a comma or a closing parenthesis, references are found alone. -/
  parted : ∀ a c b, value = a ++ c :: b → c = ',' ∨ c = ')' → ∀ start,
    variableRefs value start = variableRefs a start ++
      (variableRefs b start).map (VariableRef.shift (a.byteLength + 1))

/-- **The references of a value** are all those found in it from the left. -/
theorem variableRefs_complete (value : Text) : value.ReferencesComplete := by
  have hfound : Leftmost (Reference.In · value) Reference.whole 0 (referencesFrom false 0 value) :=
    referencesFrom_leftmost [] value
  have hunique : ∀ found, Leftmost (Reference.In · value) Reference.whole 0 found →
      found = referencesFrom false 0 value := fun found h =>
    h.unique (fun _ _ hm hn => hm.eq_of_start hn) hfound
  have hlisted : ∀ start, variableRefs value start =
      (referencesFrom false 0 value).map fun m => m.ref.shift start := by
    intro start
    rw [variableRefs_eq, ← map_ref_referencesFrom, List.map_map]
    rfl
  refine ⟨⟨_, hfound, hunique⟩, ?_, ?_, ?_, ?_⟩
  · intro found h start
    rw [hunique found h]
    exact hlisted start
  · intro start r hr
    rw [hlisted start] at hr
    obtain ⟨m, hm, rfl⟩ := List.mem_map.1 hr
    exact ⟨m.ref.span, rfl, (hfound.occurs_of_mem hm).slice?_name⟩
  · intro m hm start
    rw [hlisted start]
    obtain ⟨n, hn, hcovers⟩ := hfound.covers hm (Nat.zero_le _)
    rcases hm.begins_in_name (hfound.occurs_of_mem hn) hcovers with rfl | hname
    · exact .inl (List.mem_map_of_mem hn)
    · refine .inr ⟨_, List.mem_map_of_mem hn, ?_⟩
      rw [Span.covers_iff] at hname ⊢
      exact ⟨Nat.add_le_add_right hname.1 _, Nat.add_lt_add_right hname.2 _⟩
  · rintro a c b rfl hc start
    exact variableRefs_append hc a b start

/-- In a fallback a reference is found; in a name it is passed over. -/
example : variableRefs "var(--a,VAR( --var(--b))".toList 10 =
    [⟨"--a", ⟨14, 17⟩⟩, ⟨"--var(--b", ⟨23, 32⟩⟩] := by decide +kernel

end StyleServer
