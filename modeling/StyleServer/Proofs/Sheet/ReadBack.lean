/-
  The parts of a written sheet are read back.

  * `Written.Simple.ofFragment?_content`, `Written.listOf_content`: selectors.
  * `Written.Entry.ofFragment?_content`: declarations.
  * `Written.Directive.ofFragment?_content`: imports.

  The results do not depend on where a part stands.
-/
import StyleServer.Proofs.Sheet.Plain
import StyleServer.Proofs.Sheet.Statement
import StyleServer.Proofs.Sheet.Written
import Mathlib.Data.List.Basic

namespace StyleServer

/-! ## Characters -/

theorem ne_of_isNameChar {c d : Char} (hc : isNameChar c = true) (hd : isNameChar d = false) :
    c ≠ d := by
  rintro rfl
  rw [hc] at hd
  simp at hd

theorem isPlain_of_isNameChar {c : Char} (h : isNameChar c = true) : isPlain c = true := by
  have hne : ∀ d : Char, isNameChar d = false → c ≠ d := fun d hd => ne_of_isNameChar h hd
  have hq : isQuote c = false := by
    simp [isQuote, hne '"' (by decide), hne '\'' (by decide)]
  have hm : markOf? c = none := by
    simp [markOf?, hne '\x7b' (by decide), hne '\x7d' (by decide), hne ';' (by decide)]
  exact isPlain_iff.2 ⟨hq, hm, hne '/' (by decide)⟩

theorem isAsciiBlank_of_isBlank {c : Char} (h : isBlank c = false) : isAsciiBlank c = false := by
  cases hb : isAsciiBlank c with
  | false => rfl
  | true => rw [isBlank_of_isAsciiBlank hb] at h; simp at h

theorem Trimmed.ascii {text : Text} (h : Trimmed isBlank text) : Trimmed isAsciiBlank text :=
  ⟨h.ne_nil, fun c hc => isAsciiBlank_of_isBlank (h.first c hc),
    fun c hc => isAsciiBlank_of_isBlank (h.last c hc)⟩

/-- Trimming takes away the blanks around a text. -/
theorem Trimmed.text_trim_eq {before text after : Text} (h : Trimmed isBlank text)
    (hb : ∀ c ∈ before, isAsciiBlank c = true) (ha : ∀ c ∈ after, isAsciiBlank c = true) :
    Text.trim (before ++ (text ++ after)) = text :=
  h.trim_eq (fun c hc => isBlank_of_isAsciiBlank (hb c hc))
    fun c hc => isBlank_of_isAsciiBlank (ha c hc)

namespace Written

theorem Blanks.isBlank (b : Blanks) : ∀ c ∈ b.chars, isBlank c = true :=
  fun c hc => isBlank_of_isAsciiBlank (b.blank c hc)

theorem Blanks.isPlain (b : Blanks) : ∀ c ∈ b.chars, isPlain c = true :=
  fun c hc => isPlain_of_isAsciiBlank (b.blank c hc)

/-- Blanks hold no other character. -/
theorem Blanks.ne (b : Blanks) {d : Char} (hd : isAsciiBlank d = false) : ∀ c ∈ b.chars, c ≠ d := by
  rintro c hc rfl
  rw [b.blank c hc] at hd
  simp at hd

theorem Name.trimmed (x : Name) : Trimmed isBlank x.chars :=
  .of_forall x.ne_nil fun c hc => (x.named c hc).2

theorem Value.trimmed (v : Value) : Trimmed isBlank v.chars := ⟨v.ne_nil, v.first, v.last⟩

theorem Value.isPlain (v : Value) : ∀ c ∈ v.chars, isPlain c = true := by
  intro c hc
  have h := v.plain c hc
  simp only [List.mem_cons, List.not_mem_nil, or_false, not_or] at h
  obtain ⟨hopen, hclose, hsemi, hdouble, hsingle, hslash⟩ := h
  have hq : isQuote c = false := by simp [isQuote, hdouble, hsingle]
  have hm : markOf? c = none := by simp [markOf?, hopen, hclose, hsemi]
  exact isPlain_iff.2 ⟨hq, hm, hslash⟩

/-! ## Selectors -/

namespace Simple

/-- A selector is made of name characters and the signs before names. -/
theorem mem_chars {s : Simple} {c : Char} (h : c ∈ s.chars) :
    isNameChar c = true ∧ isBlank c = false ∨ c ∈ ['.', '#', '*', ':'] := by
  cases s with
  | styleClass x | id x | pseudo x =>
    rcases List.mem_cons.1 h with rfl | h
    · exact Or.inr (by decide)
    · exact Or.inl (x.named c h)
  | element x => exact Or.inl (x.named c h)
  | universal => exact Or.inr (by simp [List.mem_singleton.1 h])

theorem chars_ne_nil (s : Simple) : s.chars ≠ [] := by
  cases s with
  | element x => exact x.ne_nil
  | styleClass | id | universal | pseudo => simp [chars]

theorem trimmed (s : Simple) : Trimmed isBlank s.chars := by
  refine .of_forall s.chars_ne_nil fun c hc => ?_
  rcases mem_chars hc with ⟨-, h⟩ | h
  · exact h
  · simp only [List.mem_cons, List.not_mem_nil, or_false] at h
    rcases h with rfl | rfl | rfl | rfl <;> decide

theorem isPlain (s : Simple) : ∀ c ∈ s.chars, isPlain c = true := by
  intro c hc
  rcases mem_chars hc with ⟨h, -⟩ | h
  · exact isPlain_of_isNameChar h
  · simp only [List.mem_cons, List.not_mem_nil, or_false] at h
    rcases h with rfl | rfl | rfl | rfl <;> decide

/-- A selector holds no character but those of `mem_chars`. -/
theorem ne (s : Simple) {d : Char} (hd : isNameChar d = false) (hd' : d ∉ ['.', '#', '*', ':']) :
    ∀ c ∈ s.chars, c ≠ d := by
  rintro c hc rfl
  rcases mem_chars hc with ⟨h, -⟩ | h
  · rw [h] at hd; simp at hd
  · exact hd' h

theorem takeWhile_name (x : Name) : x.chars.takeWhile isNameChar = x.chars := by
  have h := takeWhile_stop (fun c hc => (x.named c hc).1) (b := []) (by simp)
  rwa [List.append_nil] at h

theorem kindOf_name {x : Name} {c : Char} (h : c ∈ x.chars) : Selector.kindOf c = .element := by
  have hne : ∀ d : Char, isNameChar d = false → c ≠ d := fun d hd =>
    ne_of_isNameChar (x.named c h).1 hd
  simp [Selector.kindOf, hne '.' (by decide), hne '#' (by decide), hne '*' (by decide),
    hne ':' (by decide)]

/-- The first character of a selector gives its kind, and the others its name. -/
theorem nameOf_kindOf {s : Simple} {c : Char} {cs : Text} (h : s.chars = c :: cs) :
    Selector.kindOf c = s.kind ∧ Selector.nameOf s.kind s.chars = s.name := by
  cases s with
  | styleClass x | id x =>
    obtain ⟨rfl, rfl⟩ := List.cons.inj h
    exact ⟨rfl, takeWhile_name x⟩
  | element x =>
    have hc : c ∈ x.chars := by
      rw [show x.chars = c :: cs from h]
      exact List.mem_cons_self
    exact ⟨kindOf_name hc, takeWhile_name x⟩
  | universal =>
    obtain ⟨rfl, rfl⟩ := List.cons.inj h
    exact ⟨rfl, rfl⟩
  | pseudo x =>
    obtain ⟨rfl, rfl⟩ := List.cons.inj h
    refine ⟨rfl, ?_⟩
    have hx : ∀ c ∈ x.chars.head?, (c == ':') = false := fun c hc => by
      simpa using ne_of_isNameChar (x.named c (List.mem_of_head? hc)).1 (by decide)
    have hdrop : (':' :: x.chars).dropWhile (· == ':') = x.chars :=
      dropWhile_stop (a := [':']) (by simp) hx
    show List.takeWhile isNameChar ((':' :: x.chars).dropWhile (· == ':')) = x.chars
    rw [hdrop, takeWhile_name]

theorem name_ne_nil (s : Simple) : s.name ≠ [] := by
  cases s with
  | styleClass x | id x | element x | pseudo x => exact x.ne_nil
  | universal => simp [name]

/-- **A selector is read as it is written.** -/
theorem ofFragment?_content (s : Simple) (start : Nat) :
    (Selector.ofFragment? ⟨start, s.chars⟩).map Selector.content = some s.content := by
  obtain ⟨c, cs, h⟩ := List.exists_cons_of_ne_nil s.chars_ne_nil
  obtain ⟨hkind, hname⟩ := nameOf_kindOf h
  unfold Selector.ofFragment?
  simp only [h]
  rw [hkind, ← h, hname, if_neg (by simpa using s.name_ne_nil)]
  rfl

end Simple

end Written

namespace Selector

variable {part : Text} {start : Nat} {s : Selector}

theorem listOf_single (h : ∀ c ∈ part, c ≠ ',')
    (hs : ofFragment? (Fragment.trim ⟨start, part⟩) = some s) : listOf ⟨start, part⟩ = [s] := by
  simp only [listOf, Fragment.splitOn, Fragment.splitFrom_single h, List.filterMap_cons, hs,
    List.filterMap_nil]

theorem listOf_comma (h : ∀ c ∈ part, c ≠ ',')
    (hs : ofFragment? (Fragment.trim ⟨start, part⟩) = some s) (rest : Text) :
    listOf ⟨start, part ++ ',' :: rest⟩ =
      s :: listOf ⟨start + Text.byteLength part + ','.utf8Size, rest⟩ := by
  simp only [listOf, Fragment.splitOn, Fragment.splitFrom_sep h, List.filterMap_cons, hs]

end Selector

namespace Written

/-- A part of a clause of selectors is read as the selector in it. -/
theorem Simple.ofFragment?_trim (s : Simple) {part : Text} (h : Text.trim part = s.chars)
    (start : Nat) :
    ∃ sel, Selector.ofFragment? (Fragment.trim ⟨start, part⟩) = some sel ∧
      sel.content = s.content := by
  have htrim : Fragment.trim ⟨start, part⟩ = ⟨(Fragment.trim ⟨start, part⟩).start, s.chars⟩ := by
    rw [← h]; rfl
  rw [htrim]
  exact Option.map_eq_some_iff.1 (s.ofFragment?_content _)

/-- A selector with blanks around it holds no comma. -/
theorem Simple.ne_comma (s : Simple) (before after : Blanks) :
    ∀ c ∈ before.chars ++ (s.chars ++ after.chars), c ≠ ',' := by
  intro c hc
  rcases List.mem_append.1 hc with hc | hc
  · exact before.ne (by decide) c hc
  · rcases List.mem_append.1 hc with hc | hc
    · exact s.ne (by decide) (by decide) c hc
    · exact after.ne (by decide) c hc

/-- **A list of selectors is read as it is written.** -/
theorem listOf_content (before : Blanks) (s : Simple) (further : List Further) (start : Nat) :
    (Selector.listOf ⟨start, before.chars ++ (s.chars ++ further.flatMap Further.render)⟩).map
        Selector.content =
      s.content :: further.map (·.selector.content) := by
  induction further generalizing before s start with
  | nil =>
    have hblank : ∀ c ∈ ([] : Text), isAsciiBlank c = true := by simp
    obtain ⟨sel, hsel, hcontent⟩ :=
      s.ofFragment?_trim (s.trimmed.text_trim_eq before.blank hblank) start
    rw [List.flatMap_nil, Selector.listOf_single (s.ne_comma before ⟨[], hblank⟩) hsel]
    simp [hcontent]
  | cons f further ih =>
    have htext : before.chars ++ (s.chars ++ (f :: further).flatMap Further.render) =
        before.chars ++ (s.chars ++ f.beforeComma.chars) ++ ',' ::
          (f.afterComma.chars ++ (f.selector.chars ++ further.flatMap Further.render)) := by
      simp [Further.render]
    obtain ⟨sel, hsel, hcontent⟩ :=
      s.ofFragment?_trim (s.trimmed.text_trim_eq before.blank f.beforeComma.blank) start
    rw [htext, Selector.listOf_comma (s.ne_comma before f.beforeComma) hsel, List.map_cons, ih,
      hcontent, List.map_cons]

/-! ## Declarations -/

end Written

theorem nextValuePart_plain (lineStart : Bool) {c : Char} (h : isPlain c = true) (cs : Text) :
    ∃ lineStart', nextValuePart lineStart c cs = (.kept [c], lineStart', cs) := by
  obtain ⟨hq, -, hs⟩ := isPlain_iff.1 h
  unfold nextValuePart
  rw [if_neg (by simp [hq])]
  split
  · exact ⟨_, rfl⟩
  · split
    · exact absurd rfl hs
    · exact absurd rfl hs
    · exact ⟨_, rfl⟩

/-- Plain characters hold no comments. -/
theorem valuePartsFrom_plain (lineStart : Bool) {value : Text} (h : ∀ c ∈ value, isPlain c = true) :
    (valuePartsFrom lineStart value).any ValuePart.isComment = false := by
  induction value generalizing lineStart with
  | nil => simp [valuePartsFrom]
  | cons c cs ih =>
    obtain ⟨lineStart', hn⟩ := nextValuePart_plain lineStart (h c List.mem_cons_self) cs
    rw [valuePartsFrom, hn, List.any_cons, ih lineStart' fun d hd => h d (List.mem_cons_of_mem _ hd)]
    rfl

theorem withoutComments_plain {value : Text} (h : ∀ c ∈ value, isPlain c = true) :
    withoutComments value = value := by
  simp only [withoutComments, valueParts, valuePartsFrom_plain false h]
  rfl

namespace Written

/-- **A declaration is read as it is written.** -/
theorem Entry.ofFragment?_content (e : Entry) (start : Nat) :
    (Declaration.ofFragment? ⟨start, e.body⟩).map Declaration.content = some e.content := by
  have hname : ∀ c ∈ e.name.chars ++ e.afterName.chars, c ≠ ':' := by
    intro c hc
    rcases List.mem_append.1 hc with hc | hc
    · exact ne_of_isNameChar (e.name.named c hc).1 (by decide)
    · exact e.afterName.ne (by decide) c hc
  have hbody : e.body =
      e.name.chars ++ e.afterName.chars ++ ':' :: (e.beforeValue.chars ++ e.value.chars) := by
    simp [Entry.body]
  have hnil : ∀ c ∈ ([] : Text), isAsciiBlank c = true := by simp
  have htrim : Text.trim (e.name.chars ++ e.afterName.chars) = e.name.chars :=
    e.name.trimmed.text_trim_eq hnil e.afterName.blank
  have htrim' := e.value.trimmed.text_trim_eq e.beforeValue.blank hnil
  rw [List.append_nil] at htrim'
  rw [hbody, Declaration.ofFragment?, Fragment.cutAt_sep hname]
  simp only [Fragment.trim_chars, htrim, htrim', withoutComments_plain e.value.isPlain,
    Fragment.text, List.isEmpty_iff, e.name.ne_nil, if_false, Option.map_some]
  rfl

end Written

/-! ## Imports -/

theorem isBlank_head {c : Char} (h : isBlank c = false) (rest : Text) :
    ∀ d ∈ (c :: rest).head?, isBlank d = false := by
  simpa using h

namespace Fragment

theorem behind?_append (literal rest : Text) (start : Nat) :
    behind? literal ⟨start, literal ++ rest⟩ = some ⟨start + Text.byteLength literal, rest⟩ := by
  have h : literal.isPrefixOf? (literal ++ rest) = some rest :=
    List.isPrefixOf?_eq_some_iff_append_eq.2 rfl
  rw [behind?, h]
  rfl

theorem behind?_ne {c d : Char} (h : c ≠ d) (literal rest : Text) (start : Nat) :
    behind? (c :: literal) ⟨start, d :: rest⟩ = none := by
  simp [behind?, List.isPrefixOf?, h]

theorem dropWhile_blanks (b : Written.Blanks) {rest : Text} (h : ∀ c ∈ rest.head?, isBlank c = false)
    (start : Nat) :
    dropWhile isBlank ⟨start, b.chars ++ rest⟩ = ⟨start + Text.byteLength b.chars, rest⟩ := by
  rw [dropWhile, dropWhile_stop b.isBlank h, takeWhile_stop b.isBlank h]

end Fragment

namespace Written

theorem Quote.isQuote (q : Quote) : isQuote q.char = true := by
  cases q <;> decide

theorem Quote.isBlank (q : Quote) : isBlank q.char = false := by
  cases q <;> decide

/-- A path is quoted by characters that it does not hold. -/
theorem Path.ne_quote (p : Path) (q : Quote) : ∀ c ∈ p.chars, (c != q.char) = true := by
  intro c hc
  have h := p.plain c hc
  simp only [List.mem_cons, not_or] at h
  cases q with
  | double => simpa [Quote.char] using h.1
  | single => simpa [Quote.char] using h.2.1

theorem quoted?_path (q : Quote) (p : Path) (rest : Text) (start : Nat) :
    ∃ pathStart restStart,
      Import.quoted? q.char ⟨start, q.char :: (p.chars ++ q.char :: rest)⟩ =
        some (⟨pathStart, p.chars⟩, ⟨restStart, rest⟩) := by
  have hstop : ∀ c ∈ (q.char :: rest).head?, (c != q.char) = false := by simp
  have hopen := Fragment.behind?_append [q.char] (p.chars ++ q.char :: rest) start
  have hclose := Fragment.behind?_append [q.char] rest
  rw [List.singleton_append] at hopen
  simp only [List.singleton_append] at hclose
  simp only [Import.quoted?, hopen, Option.bind_eq_bind, Option.bind_some, Fragment.dropWhile,
    Fragment.takeWhile, dropWhile_stop (p.ne_quote q) hstop, takeWhile_stop (p.ne_quote q) hstop,
    hclose, List.isEmpty_iff, p.ne_nil, if_false]
  exact ⟨_, _, rfl⟩

/-- A quoted path is found, whatever its quotes. -/
theorem path?_path (q : Quote) (p : Path) (rest : Text) (start : Nat) :
    ∃ pathStart restStart,
      Import.path? ⟨start, q.char :: (p.chars ++ q.char :: rest)⟩ =
        some (⟨pathStart, p.chars⟩, ⟨restStart, rest⟩) := by
  obtain ⟨pathStart, restStart, h⟩ := quoted?_path q p rest start
  refine ⟨pathStart, restStart, ?_⟩
  rw [Import.path?]
  cases q with
  | double => rw [show Import.quoted? '"' _ = _ from h]; rfl
  | single =>
    have hne : '"' ≠ Quote.single.char := by decide
    rw [show Import.quoted? '"' _ = none by rw [Import.quoted?, Fragment.behind?_ne hne]; rfl]
    exact h

theorem urlOpening?_wrapped (w : Wrapping) {rest : Text} (h : ∀ c ∈ rest.head?, isBlank c = false)
    (start : Nat) :
    ∃ start', Import.urlOpening?
        ⟨start, ['u', 'r', 'l'] ++ (w.beforeOpening.chars ++ (['('] ++ (w.afterOpening.chars ++ rest)))⟩ =
      some ⟨start', rest⟩ := by
  have hparen : ∀ c ∈ (['('] ++ (w.afterOpening.chars ++ rest)).head?, isBlank c = false :=
    isBlank_head (by decide) _
  rw [Import.urlOpening?, Fragment.behind?_append]
  simp only [Option.bind_eq_bind, Option.bind_some, Fragment.dropWhile_blanks _ hparen,
    Fragment.behind?_append, Fragment.dropWhile_blanks _ h]
  exact ⟨_, rfl⟩

/-- Behind the path stands the semicolon, or the closing of `url( )` and the semicolon. -/
theorem finish?_closing (i : Directive) (f path : Fragment) (start : Nat) :
    Import.finish? f i.wrapping.isSome path ⟨start, i.closing ++ (i.beforeEnd.chars ++ [';'])⟩ =
      some ⟨path.text, i.wrapping.isSome, f.span, path.span⟩ := by
  have hsemi : ∀ c ∈ [';'].head?, isBlank c = false := isBlank_head (by decide) []
  cases hw : i.wrapping with
  | none =>
    have hne : ')' ≠ ';' := by decide
    have hblank : isBlank ';' = false := by decide
    have hdrop : ∀ start, (Fragment.dropWhile isBlank ⟨start, [';']⟩).chars = [';'] := by
      simp [Fragment.dropWhile, hblank]
    simp only [Directive.closing, hw, List.nil_append, Import.finish?,
      Fragment.dropWhile_blanks _ hsemi, Fragment.behind?_ne hne, Option.getD_none, hdrop]
    simp
  | some w =>
    have hparen : ∀ c ∈ ([')'] ++ (i.beforeEnd.chars ++ [';'])).head?, isBlank c = false :=
      isBlank_head (by decide) _
    simp only [Directive.closing, hw, List.append_assoc, Import.finish?,
      Fragment.dropWhile_blanks _ hparen, Fragment.behind?_append, Option.getD_some,
      Fragment.dropWhile_blanks _ hsemi]
    simp

/-- The argument of a directive: its path, and whether that stands inside `url( )`. -/
theorem argument_opening (i : Directive) (rest : Text) (start : Nat) :
    ∃ start', (Import.urlOpening? ⟨start, i.opening ++ i.quote.char :: rest⟩).isSome =
        i.wrapping.isSome ∧
      (Import.urlOpening? ⟨start, i.opening ++ i.quote.char :: rest⟩).getD
          ⟨start, i.opening ++ i.quote.char :: rest⟩ = ⟨start', i.quote.char :: rest⟩ := by
  cases hw : i.wrapping with
  | none =>
    have hne : 'u' ≠ i.quote.char := by cases i.quote <;> decide
    have hnone : Import.urlOpening? ⟨start, i.quote.char :: rest⟩ = none := by
      rw [Import.urlOpening?, Fragment.behind?_ne hne]
      rfl
    simp only [Directive.opening, hw, List.nil_append, hnone]
    exact ⟨start, rfl, rfl⟩
  | some w =>
    obtain ⟨start', h⟩ := urlOpening?_wrapped w (isBlank_head i.quote.isBlank rest) start
    simp only [Directive.opening, hw, List.append_assoc, h]
    exact ⟨start', rfl, rfl⟩

theorem Directive.opening_head (i : Directive) (rest : Text) :
    ∀ c ∈ (i.opening ++ i.quote.char :: rest).head?, isBlank c = false := by
  cases hw : i.wrapping with
  | none =>
    simp only [opening, hw]
    exact isBlank_head i.quote.isBlank rest
  | some w =>
    simp only [opening, hw]
    exact isBlank_head (by decide) _

/-- **A directive is read as it is written.** -/
theorem Directive.ofFragment?_content (i : Directive) (start : Nat) :
    (Import.ofFragment? ⟨start, i.body ++ i.beforeEnd.chars ++ [';']⟩).map Import.content =
      some i.content := by
  have hbody : i.body ++ i.beforeEnd.chars ++ [';'] = ['@', 'i', 'm', 'p', 'o', 'r', 't'] ++
      (i.afterKeyword.chars ++ (i.opening ++ i.quote.char ::
        (i.path.chars ++ i.quote.char :: (i.closing ++ (i.beforeEnd.chars ++ [';']))))) := by
    simp [Directive.body]
  have hparted := Text.byteLength_pos i.parted
  rw [hbody, Import.ofFragment?_eq, Fragment.behind?_append, Option.bind_some]
  dsimp only
  rw [Fragment.dropWhile_blanks _ (i.opening_head _), if_neg (by dsimp only; omega)]
  obtain ⟨argument, hurl, hquoted⟩ := argument_opening i
    (i.path.chars ++ i.quote.char :: (i.closing ++ (i.beforeEnd.chars ++ [';']))) _
  rw [hurl, hquoted]
  obtain ⟨path, rest, hpath⟩ := path?_path i.quote i.path _ argument
  rw [hpath, Option.bind_some]
  dsimp only
  rw [finish?_closing]
  rfl

end Written

end StyleServer
