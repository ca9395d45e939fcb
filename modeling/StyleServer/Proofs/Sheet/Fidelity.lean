/-
  Names and the places where they stand.

  What a sheet calls by a name stands in the text at the span that the sheet gives for it,
  and the span is found again from the positions of its ends.

  * `Text.Recovers`: the positions of the ends of a span lead back to them.  This holds for
    every part of a text without blanks at its ends (`Fragment.In.recovers`), since such a
    part neither begins nor ends at a line end.
  * `Text.Shows`: a span shows a name.
  * `Sheet.Faithful`, `Sheet.ofText_faithful`: selectors, names of declarations and
    variables, references and paths of imports are shown by their spans.
-/
import StyleServer.Proofs.Sheet.Origin
import StyleServer.Proofs.Text.Lines

namespace StyleServer

/-! ## Spans and positions -/

namespace Text

/-- The positions of the two ends of a span fit in 32 bits and lead back to these ends. -/
structure Recovers (text : Text) (span : Span) : Prop where
  start_fits : (text.range span).start.Fits
  stop_fits : (text.range span).stop.Fits
  start_eq : text.offset? (text.range span).start = some span.start
  stop_eq : text.offset? (text.range span).stop = some span.stop

/-- What stands in a range. -/
def atRange? (text : Text) (range : Range) : Option Text := do
  let start ← text.offset? range.start
  let stop ← text.offset? range.stop
  text.slice? ⟨start, stop⟩

/-- A span shows a name: the name stands there, and so it does in the range of the span. -/
structure Shows (text : Text) (span : Span) (name : String) : Prop where
  slice_eq : text.slice? span = some name.toList
  recovers : text.Recovers span
  atRange_eq : text.atRange? (text.range span) = some name.toList

theorem recovers_of_not_behindReturn {a chars b : Text}
    (hsize : (a ++ (chars ++ b)).byteLength < UInt32.size) (hstart : ¬ BehindReturn a (chars ++ b))
    (hstop : ¬ BehindReturn (a ++ chars) b) :
    (a ++ (chars ++ b)).Recovers ⟨a.byteLength, (a ++ chars).byteLength⟩ := by
  refine ⟨position_fits hsize _, position_fits hsize _, offset?_position hstart, ?_⟩
  have h := offset?_position hstop
  rw [List.append_assoc] at h
  exact h

/-- Neither end of a trimmed text lies behind a carriage return that ends a line. -/
theorem not_behindReturn_of_trimmed {chars : Text} (h : Trimmed isBlank chars) (a b : Text) :
    ¬ BehindReturn a (chars ++ b) ∧ ¬ BehindReturn (a ++ chars) b := by
  constructor
  · rintro ⟨-, hfeed⟩
    obtain ⟨c, cs, rfl⟩ := List.exists_cons_of_ne_nil h.ne_nil
    have hc := h.first c rfl
    rw [hfeed c rfl] at hc
    exact absurd hc (by decide)
  · rintro ⟨hreturn, -⟩
    exact absurd (h.last_append a _ hreturn) (by decide)

end Text

namespace Fragment.In

variable {f : Fragment} {text : Text}

/-- The ends of a trimmed part of a text are found again. -/
theorem recovers (h : f.In text) (ht : Trimmed isBlank f.chars)
    (hsize : text.byteLength < UInt32.size) :
    text.Recovers f.span := by
  obtain ⟨a, b, rfl, ha⟩ := h
  obtain ⟨hstart, hstop⟩ := Text.not_behindReturn_of_trimmed ht a b
  have hspan : f.span = ⟨a.byteLength, (a ++ f.chars).byteLength⟩ := by
    simp [Fragment.span, Fragment.stop, ha]
  rw [List.append_assoc] at hsize ⊢
  rw [hspan]
  exact Text.recovers_of_not_behindReturn hsize hstart hstop

/-- A part of a text is shown by its span when the ends of the span are found again. -/
theorem shows_of_recovers (h : f.In text) (hr : text.Recovers f.span) :
    text.Shows f.span f.text := by
  have hslice : text.slice? f.span = some f.text.toList := by
    rw [h.slice?_span, Fragment.text, String.toList_ofList]
  refine ⟨hslice, hr, ?_⟩
  rw [Text.atRange?, hr.start_eq, hr.stop_eq]
  exact hslice

theorem shows_of_trimmed (h : f.In text) (ht : Trimmed isBlank f.chars)
    (hsize : text.byteLength < UInt32.size) : text.Shows f.span f.text :=
  h.shows_of_recovers (h.recovers ht hsize)

end Fragment.In

/-! ## What is read from a statement -/

/-- A selector is a trimmed part of its clause. -/
theorem Selector.mem_listOf {clause : Fragment} {s : Selector} (h : s ∈ listOf clause) :
    ∃ f : Fragment, f.PartOf clause ∧ Trimmed isBlank f.chars ∧ s.text = f.text ∧
      s.span = f.span := by
  obtain ⟨part, hpart, hs⟩ := List.mem_filterMap.1 h
  obtain ⟨htext, hspan, hne⟩ := ofFragment?_fragment hs
  obtain ⟨-, -, -, -, -, -, htrimmed⟩ := part.trim_spec
  exact ⟨part.trim, (Fragment.trim_partOf part).trans (Fragment.splitOn_partOf hpart),
    htrimmed hne, htext, hspan⟩

/-- The name of a reference has no blanks. -/
theorem referenceAt?_name_trimmed {text opening name rest : Text}
    (h : referenceAt? text = some (opening, name, rest)) : Trimmed isBlank name := by
  unfold referenceAt? at h
  split at h
  · next inside _ =>
    split at h
    · simp at h
    · simp only [Option.some.injEq, Prod.mk.injEq] at h
      obtain ⟨-, rfl, -⟩ := h
      refine .of_forall (by simp) fun c hc => ?_
      have hdash : isBlank '-' = false := by decide
      rcases List.mem_cons.1 hc with rfl | hc
      · exact hdash
      · rcases List.mem_cons.1 hc with rfl | hc
        · exact hdash
        · have := List.all_eq_true.1 List.all_takeWhile c hc
          simp only [isReferenceChar, Bool.and_eq_true, Bool.not_eq_true'] at this
          exact this.1.1
  · simp at h

/-- A reference is a trimmed part of its value. -/
theorem mem_variableRefsFrom {inWord : Bool} {offset : Nat} {text : Text} {r : VariableRef}
    (h : r ∈ variableRefsFrom inWord offset text) :
    ∃ f : Fragment, f.PartOf ⟨offset, text⟩ ∧ Trimmed isBlank f.chars ∧ r.name = f.text ∧
      r.span = f.span := by
  induction inWord, offset, text using variableRefsFrom.induct with
  | case1 => simp [variableRefsFrom] at h
  | case2 inWord offset c cs opening name rest href start stop ih =>
    simp only [dite_eq_ite] at href
    have hat : referenceAt? (c :: cs) = some (opening, name, rest) := by
      split at href
      · simp at href
      · exact href
    have htext := referenceAt?_append hat
    rw [variableRefsFrom_some href] at h
    rcases List.mem_cons.1 h with rfl | h
    · exact ⟨⟨start, name⟩, ⟨opening, rest, htext, rfl⟩, referenceAt?_name_trimmed hat, rfl, rfl⟩
    · obtain ⟨f, hpart, hf⟩ := ih h
      refine ⟨f, hpart.trans ⟨opening ++ name, [], by simp [htext], ?_⟩, hf⟩
      rw [Text.byteLength_append]
      exact Nat.add_assoc ..
  | case3 inWord offset c cs hnone ih =>
    simp only [dite_eq_ite] at hnone
    rw [variableRefsFrom_none hnone] at h
    obtain ⟨f, hpart, hf⟩ := ih h
    exact ⟨f, hpart.trans ⟨[c], [], by simp, by simp⟩, hf⟩

/-- The name of a declaration and its value, when there is one, are trimmed parts of its
    statement; so are its references. -/
theorem Declaration.ofFragment?_fragments {statement : Fragment} {d : Declaration}
    (h : ofFragment? statement = some d) :
    (∃ f : Fragment, f.PartOf statement ∧ Trimmed isBlank f.chars ∧ d.name = f.text ∧
        d.nameSpan = f.span) ∧
      (∃ f : Fragment, f.PartOf statement ∧ (f.chars ≠ [] → Trimmed isBlank f.chars) ∧
        d.valueSpan = f.span) ∧
      ∀ r ∈ d.refs, ∃ f : Fragment, f.PartOf statement ∧ Trimmed isBlank f.chars ∧
        r.name = f.text ∧ r.span = f.span := by
  obtain ⟨before, behind, hcut, hne, rfl⟩ := ofFragment?_parts h
  obtain ⟨hbefore, hbehind, -⟩ := Fragment.cutAt_eq_some hcut
  obtain ⟨-, -, -, -, -, -, hname⟩ := before.trim_spec
  obtain ⟨-, -, -, -, -, -, hvalue⟩ := behind.trim_spec
  have hpart := (Fragment.trim_partOf behind).trans hbehind
  refine ⟨⟨before.trim, (Fragment.trim_partOf before).trans hbefore, hname hne, rfl, rfl⟩,
    ⟨behind.trim, hpart, hvalue, rfl⟩, fun r hr => ?_⟩
  obtain ⟨f, hf, hr⟩ := mem_variableRefsFrom ((refsOf_sublist _).subset hr)
  exact ⟨f, hf.trans hpart, hr⟩

namespace Import

/-- A fragment stands in another one between two quotes. -/
def QuotedIn (path f : Fragment) : Prop :=
  ∃ quote before after, isQuote quote = true ∧
    f.chars = before ++ quote :: (path.chars ++ quote :: after) ∧
    path.start = f.start + Text.byteLength (before ++ [quote])

theorem QuotedIn.of_partOf {path f g : Fragment} (h : QuotedIn path f) (hp : f.PartOf g) :
    QuotedIn path g := by
  obtain ⟨quote, before, after, hq, hc, hs⟩ := h
  obtain ⟨before', after', hc', hs'⟩ := hp
  refine ⟨quote, before' ++ before, after ++ after', hq, by simp [hc', hc], ?_⟩
  simp only [hs, hs', Text.byteLength_append]
  omega

theorem quoted?_quotedIn {quote : Char} (hq : isQuote quote = true) {f path rest : Fragment}
    (h : quoted? quote f = some (path, rest)) : QuotedIn path f := by
  unfold quoted? at h
  obtain ⟨inside, hinside, h⟩ := Option.bind_eq_some_iff.1 h
  obtain ⟨rest', hrest, h⟩ := Option.bind_eq_some_iff.1 h
  split at h
  · simp at h
  · simp only [Option.pure_def, Option.some.injEq, Prod.mk.injEq] at h
    obtain ⟨rfl, rfl⟩ := h
    obtain ⟨hc, hs⟩ := Fragment.behind?_eq hinside
    obtain ⟨hc', -⟩ := Fragment.behind?_eq hrest
    refine ⟨quote, [], rest'.chars, hq, ?_, by simpa [Fragment.takeWhile] using hs⟩
    have hsplit : inside.chars = (inside.takeWhile (· != quote)).chars ++
        (inside.dropWhile (· != quote)).chars := by
      simp [Fragment.takeWhile, Fragment.dropWhile]
    rw [hc, hsplit, hc']
    rfl

theorem path?_quotedIn {f path rest : Fragment} (h : path? f = some (path, rest)) :
    QuotedIn path f := by
  unfold path? at h
  rcases Option.or_eq_some_iff.1 h with h | ⟨-, h⟩
  · exact quoted?_quotedIn (by decide) h
  · exact quoted?_quotedIn (by decide) h

theorem urlOpening?_partOf {f inner : Fragment} (h : urlOpening? f = some inner) :
    inner.PartOf f := by
  unfold urlOpening? at h
  obtain ⟨word, hword, h⟩ := Option.bind_eq_some_iff.1 h
  obtain ⟨paren, hparen, h⟩ := Option.bind_eq_some_iff.1 h
  obtain rfl := Option.some.inj h
  exact (Fragment.dropWhile_partOf _ paren).trans ((Fragment.behind?_partOf hparen).trans
    ((Fragment.dropWhile_partOf _ word).trans (Fragment.behind?_partOf hword)))

/-- The path of an import stands between two quotes in its statement. -/
theorem ofFragment?_path {f : Fragment} {i : Import} (h : ofFragment? f = some i) :
    ∃ path, QuotedIn path f ∧ i.path = path.text ∧ i.pathSpan = path.span := by
  rw [ofFragment?_eq] at h
  obtain ⟨keyword, hkeyword, h⟩ := Option.bind_eq_some_iff.1 h
  dsimp only at h
  split at h
  · simp at h
  · obtain ⟨⟨path, rest⟩, hpath, h⟩ := Option.bind_eq_some_iff.1 h
    have hargument : (keyword.dropWhile isBlank).PartOf f :=
      (Fragment.dropWhile_partOf _ keyword).trans (Fragment.behind?_partOf hkeyword)
    have hinner : ((urlOpening? (keyword.dropWhile isBlank)).getD
        (keyword.dropWhile isBlank)).PartOf f := by
      cases hu : urlOpening? (keyword.dropWhile isBlank) with
      | none => exact hargument
      | some inner => exact (urlOpening?_partOf hu).trans hargument
    refine ⟨path, (path?_quotedIn hpath).of_partOf hinner, ?_⟩
    dsimp only [finish?] at h
    split at h
    · obtain rfl := Option.some.inj h
      exact ⟨rfl, rfl⟩
    · simp at h

/-- Between two quotes, nothing lies behind a carriage return that ends a line. -/
theorem QuotedIn.shows {path f : Fragment} (h : QuotedIn path f) {text : Text} (hf : f.In text)
    (hsize : text.byteLength < UInt32.size) : text.Shows path.span path.text := by
  obtain ⟨quote, before, after, hq, hc, hs⟩ := h
  obtain ⟨before', after', rfl, hs'⟩ := hf
  have heq : before' ++ f.chars ++ after' =
      before' ++ (before ++ [quote]) ++ (path.chars ++ (quote :: after ++ after')) := by
    simp [hc]
  have hstart : path.start = Text.byteLength (before' ++ (before ++ [quote])) := by
    rw [Text.byteLength_append, hs', hs]
  rw [heq] at hsize ⊢
  have hin : path.In (before' ++ (before ++ [quote]) ++ (path.chars ++ (quote :: after ++ after'))) :=
    ⟨before' ++ (before ++ [quote]), quote :: after ++ after', by simp, hstart.symm⟩
  refine hin.shows_of_recovers ?_
  have hspan : path.span = ⟨Text.byteLength (before' ++ (before ++ [quote])),
      Text.byteLength (before' ++ (before ++ [quote]) ++ path.chars)⟩ := by
    rw [Fragment.span, Fragment.stop, hstart, Text.byteLength_append _ path.chars]
  rw [hspan]
  refine Text.recovers_of_not_behindReturn hsize ?_ ?_
  · rintro ⟨hreturn, -⟩
    have : quote = '\r' := by simpa using hreturn
    exact absurd hq (by rw [this]; decide)
  · rintro ⟨-, hfeed⟩
    have : quote = '\n' := hfeed quote rfl
    exact absurd hq (by rw [this]; decide)

end Import

/-! ## Sheets -/

namespace Sheet

/-- The spans of a sheet show what the sheet says. -/
structure Faithful (s : Sheet) : Prop where
  selectors : ∀ sel ∈ s.selectors, s.source.Shows sel.span sel.text
  names : ∀ d ∈ s.declarations, s.source.Shows d.nameSpan d.name
  refs : ∀ d ∈ s.declarations, ∀ r ∈ d.refs, s.source.Shows r.span r.name
  paths : ∀ i ∈ s.imports, s.source.Shows i.pathSpan i.path
  customs : ∀ c ∈ s.customProperties, s.source.Shows c.nameSpan c.name
  /-- The ends of a value that is not empty are found again, too. -/
  values : ∀ d ∈ s.declarations, d.valueSpan.isEmpty = false → s.source.Recovers d.valueSpan

theorem ofText_faithful {text : Text} (hsize : text.byteLength < UInt32.size) :
    (ofText text).Faithful := by
  have hnames : ∀ d ∈ (ofText text).declarations, text.Shows d.nameSpan d.name := by
    intro d hd
    obtain ⟨statement, hs, hd⟩ := declaration_origin hd
    obtain ⟨⟨f, hpart, ht, hname, hspan⟩, -, -⟩ := Declaration.ofFragment?_fragments hd
    rw [hname, hspan]
    exact (hpart.in_text hs.in_text).shows_of_trimmed ht hsize
  refine ⟨?_, hnames, ?_, ?_, ?_, ?_⟩
  · intro sel hsel
    obtain ⟨clause, hc, hsel⟩ := selector_origin hsel
    obtain ⟨f, hpart, ht, htext, hspan⟩ := Selector.mem_listOf hsel
    rw [htext, hspan]
    exact (hpart.in_text hc.in_text).shows_of_trimmed ht hsize
  · intro d hd r hr
    obtain ⟨statement, hs, hd⟩ := declaration_origin hd
    obtain ⟨-, -, hrefs⟩ := Declaration.ofFragment?_fragments hd
    obtain ⟨f, hpart, ht, hname, hspan⟩ := hrefs r hr
    rw [hname, hspan]
    exact (hpart.in_text hs.in_text).shows_of_trimmed ht hsize
  · intro i hi
    obtain ⟨statement, hs, hi⟩ := import_origin hi
    obtain ⟨path, hquoted, hpath, hspan⟩ := Import.ofFragment?_path hi
    rw [hpath, hspan]
    exact hquoted.shows hs hsize
  · intro c hc
    obtain ⟨r, hr, d, hd, heq⟩ := customProperties_rule _ c hc
    rw [heq]
    exact hnames d (List.mem_flatMap.2 ⟨r, List.mem_of_getElem? hr, hd⟩)
  · intro d hd hvalue
    obtain ⟨statement, hs, hd⟩ := declaration_origin hd
    obtain ⟨-, ⟨f, hpart, ht, hspan⟩, -⟩ := Declaration.ofFragment?_fragments hd
    rw [hspan] at hvalue ⊢
    refine (hpart.in_text hs.in_text).recovers (ht ?_) hsize
    intro hnil
    simp [Fragment.span, Fragment.stop, hnil, Span.isEmpty] at hvalue

/-- **What a sheet says stands where it says,** by offsets and by positions. -/
theorem parse_faithful {text : String} (hsize : Text.byteLength text.toList < UInt32.size) :
    (parse text).Faithful := ofText_faithful hsize

/-- Names behind line ends of all kinds and behind characters of two and four bytes. -/
theorem parse_faithful_returns :
    Text.byteLength "/*😀*/.é\r\n,b\r\x7b--x:\r\nvar(--é)\r;\x7d".toList < UInt32.size ∧
      (parse "/*😀*/.é\r\n,b\r\x7b--x:\r\nvar(--é)\r;\x7d").selectors.length = 2 ∧
      (parse "/*😀*/.é\r\n,b\r\x7b--x:\r\nvar(--é)\r;\x7d").customProperties.length = 1 ∧
      (parse "/*😀*/.é\r\n,b\r\x7b--x:\r\nvar(--é)\r;\x7d").Faithful :=
  ⟨by decide, by decide +kernel, by decide +kernel, parse_faithful (by decide)⟩

end Sheet

end StyleServer
