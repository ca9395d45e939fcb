/-
  Classes across documents.

  Completion collects the names of all classes; a definition looks for the first selector of
  one of them, and makes its span anew from where the selector begins.  Both go through the
  same documents:

  * `Provider.Steady`: whatever is read meanwhile, the answers of a provider stay the same.  So
    it is with the documents of a workspace (`Workspace.provider_steady`).
  * `Sheet.shows_findClass?`: the span of a class shows its name, without the dot.
  * `Provider.mem_classNames_iff`, `Provider.findClass_eq_some`: what is collected and what is
    found, by the documents that are listed and can be read.
  * `Provider.classes_agree`: so a class is collected exactly when it is found.
-/
import StyleServer.Proofs.Search.Cancellation
import StyleServer.Proofs.Sheet.Fidelity
import StyleServer.Proofs.Workspace.Listing
import StyleServer.Proofs.Workspace.Reading

namespace StyleServer

/-! ## Classes of a sheet -/

theorem mem_foldl_distinct {names seen : List String} {name : String} :
    name ∈ names.foldl (fun seen name => if seen.contains name then seen else seen ++ [name]) seen ↔
      name ∈ seen ∨ name ∈ names := by
  induction names generalizing seen with
  | nil => simp
  | cons n names ih =>
    rw [List.foldl_cons, ih, List.mem_cons]
    split
    · next hseen =>
      have hn : n ∈ seen := List.contains_iff_mem.1 hseen
      constructor
      · exact fun h => h.imp_right .inr
      · rintro (h | rfl | h)
        · exact .inl h
        · exact .inl hn
        · exact .inr h
    · rw [List.mem_append, List.mem_singleton, or_assoc]

theorem mem_distinct {names : List String} {name : String} :
    name ∈ distinct names ↔ name ∈ names := by
  rw [distinct, mem_foldl_distinct]
  simp

namespace Selector

theorem kindOf_eq_styleClass {c : Char} (h : kindOf c = .styleClass) : c = '.' := by
  unfold kindOf at h
  split_ifs at h with hdot
  exact hdot

/-- A class is a dot and a name. -/
theorem ofFragment?_class {f : Fragment} {sel : Selector} (h : ofFragment? f = some sel)
    (hclass : sel.kind = .styleClass) :
    ∃ name rest, f.chars = '.' :: (name ++ rest) ∧ (∀ c ∈ name, isNameChar c = true) ∧
      sel.name = String.ofList name ∧ sel.span = f.span := by
  unfold ofFragment? at h
  split at h
  · simp at h
  · next c chars hchars =>
    dsimp only at h
    split at h
    · simp at h
    · obtain rfl := Option.some.inj h
      have hc : c = '.' := kindOf_eq_styleClass hclass
      refine ⟨chars.takeWhile isNameChar, chars.dropWhile isNameChar, ?_, ?_, ?_, rfl⟩
      · rw [hchars, hc, List.takeWhile_append_dropWhile]
      · exact fun c hc => List.all_eq_true.1 List.all_takeWhile c hc
      · rw [hchars, hc]
        rfl

/-- The name of a class is shown by its span: a dot stands before it, and the name itself does
    not end with a carriage return. -/
theorem shows_class {f : Fragment} {sel : Selector} (h : ofFragment? f = some sel)
    (hclass : sel.kind = .styleClass) {text : Text} (hf : f.In text)
    (hsize : text.byteLength < UInt32.size) : text.Shows sel.nameSpan sel.name := by
  obtain ⟨name, rest, hchars, hall, hname, hspan⟩ := ofFragment?_class h hclass
  obtain ⟨before, after, rfl, hstart⟩ := hf
  have htext : before ++ f.chars ++ after = (before ++ ['.']) ++ (name ++ (rest ++ after)) := by
    simp [hchars]
  have hdot : Text.byteLength (before ++ ['.']) = f.start + 1 := by
    rw [Text.byteLength_append, hstart]
    rfl
  have hnameSpan : sel.nameSpan = Fragment.span ⟨f.start + 1, name⟩ := by
    rw [nameSpan, hspan, hname, String.toList_ofList]
    rfl
  have hends : Fragment.span ⟨f.start + 1, name⟩ =
      ⟨(before ++ ['.']).byteLength, (before ++ ['.'] ++ name).byteLength⟩ := by
    rw [Text.byteLength_append _ name, hdot]
    rfl
  have hstop : ¬ Text.BehindReturn (before ++ ['.'] ++ name) (rest ++ after) := by
    rintro ⟨hreturn, -⟩
    rcases List.eq_nil_or_concat name with rfl | ⟨init, last, rfl⟩
    · simp at hreturn
    · rw [List.concat_eq_append, ← List.append_assoc, List.getLast?_concat,
        Option.some.injEq] at hreturn
      exact absurd (hall last (by simp)) (by rw [hreturn]; decide)
  rw [htext] at hsize ⊢
  have hin : Fragment.In ⟨f.start + 1, name⟩ ((before ++ ['.']) ++ (name ++ (rest ++ after))) :=
    ⟨before ++ ['.'], rest ++ after, by simp, hdot⟩
  rw [hnameSpan, hname]
  refine hin.shows_of_recovers ?_
  rw [hends]
  exact Text.recovers_of_not_behindReturn hsize (by rintro ⟨hreturn, -⟩; simp at hreturn) hstop

end Selector

namespace Sheet

/-- A sheet selects a class. -/
def Selects (s : Sheet) (name : String) : Prop :=
  ∃ sel ∈ s.selectors, sel.kind = .styleClass ∧ sel.name = name

theorem mem_classNames {s : Sheet} {name : String} : name ∈ s.classNames ↔ s.Selects name := by
  rw [classNames, mem_distinct]
  simp [Selects, and_assoc]

theorem findClass?_isSome {s : Sheet} {name : String} :
    (s.findClass? name).isSome = true ↔ s.Selects name := by
  simp [findClass?, Selects, List.find?_isSome]

/-- The first selector of a class shows its name. -/
theorem shows_findClass? {text : Text} {name : String} {sel : Selector}
    (h : (ofText text).findClass? name = some sel) (hsize : text.byteLength < UInt32.size) :
    text.Shows sel.nameSpan name := by
  have hfound := List.find?_some h
  simp only [Bool.and_eq_true, beq_iff_eq] at hfound
  obtain ⟨hclass, rfl⟩ := hfound
  obtain ⟨clause, hclause, hsel⟩ := selector_origin (List.mem_of_find?_eq_some h)
  obtain ⟨part, hpart, hsel⟩ := List.mem_filterMap.1 hsel
  have hin := (Fragment.trim_partOf part).trans (Fragment.splitOn_partOf hpart)
  exact Selector.shows_class hsel hclass (hin.in_text hclause.in_text) hsize

end Sheet

/-! ## Answers that stay -/

theorem Visitor.length_finds {τ α : Type} (visit : Visitor τ α) (m : τ)
    (texts : List (Url × Option String)) : (visit.finds m texts).length = texts.length := by
  induction texts generalizing m with
  | nil => rfl
  | cons read texts ih => simp [finds, ih]

namespace Provider

variable {σ : Type} {p : Provider σ} {s t : σ} {pattern name : String}

/-- A state follows from another one by reads. -/
inductive Reaches (p : Provider σ) (s : σ) : σ → Prop where
  | refl : p.Reaches s s
  | read {t : σ} (u : Url) : p.Reaches s t → p.Reaches s (p.read t u).2

/-- The answers of a provider do not change, whatever is read between two of them. -/
structure Steady (p : Provider σ) (s : σ) : Prop where
  list_eq : ∀ {t}, p.Reaches s t → ∀ pattern, p.list t pattern = p.list s pattern
  read_eq : ∀ {t}, p.Reaches s t → ∀ u, (p.read t u).1 = (p.read s u).1

/-- A search does nothing but read. -/
theorem Reaches.walk {τ α : Type} (h : p.Reaches s t) (visit : Visitor τ α)
    (cancel : Option Cancellation) (earlier : Nat) (m : τ) (us : List Url) :
    p.Reaches s (p.walk visit cancel earlier t m us).state := by
  induction us generalizing earlier t m with
  | nil => exact h
  | cons u us ih =>
    rw [Provider.walk]
    split
    · exact h
    · split
      · exact h
      · dsimp only
        split
        · exact h.read u
        · exact ih (h.read u) ..

theorem Reaches.search {τ α : Type} (h : p.Reaches s t) (visit : Visitor τ α)
    (cancel : Option Cancellation) (skip : Option Url) (m : τ) :
    p.Reaches s (p.search pattern skip visit cancel t m).state := by
  rw [Provider.search]
  split
  · exact h
  · split
    · exact h
    · exact h.walk ..

/-- All documents give what they would give alone. -/
theorem Steady.texts_eq (h : p.Steady s) (ht : p.Reaches s t) (us : List Url) :
    p.texts t us = us.map fun u => (u, (p.read s u).1) := by
  induction us generalizing t with
  | nil => rfl
  | cons u us ih => rw [texts, List.map_cons, h.read_eq ht, ih (ht.read u)]

end Provider

namespace Workspace

variable {d : Disk} {w w' : Workspace} {u : Url}

theorem provider_read : ((provider d).read w u).1 = ((w.buffers.lookup u).map (·.text)).or
    ((w.cache.lookup u).or (readFile d u).toOption) := by
  simp only [provider]
  cases hbuffer : w.buffers.lookup u with
  | some b => simp [read_buffer hbuffer, Except.toOption]
  | none =>
    cases hcache : w.cache.lookup u with
    | some text => simp [read_kept hbuffer hcache, Except.toOption]
    | none => simp [read_file hbuffer hcache]

/-- Reads only keep what they would give again. -/
theorem reaches_kept (h : (provider d).Reaches w w') :
    (∃ cache, w' = { w with cache := cache }) ∧
      ∀ u, (w'.cache.lookup u).or (readFile d u).toOption =
        (w.cache.lookup u).or (readFile d u).toOption := by
  induction h with
  | refl => exact ⟨⟨w.cache, rfl⟩, fun u => rfl⟩
  | read v _ ih =>
    obtain ⟨⟨cache, rfl⟩, hkept⟩ := ih
    obtain ⟨cache', hstate⟩ := read_state (w := { w with cache := cache }) (d := d) (u := v)
    refine ⟨⟨cache', hstate⟩, fun u => ?_⟩
    rw [← hkept u, show ((provider d).read { w with cache := cache } v).2 =
      (({ w with cache := cache } : Workspace).read d v).2 from rfl, lookup_cache_read]
    split
    · next hu => rw [hu.1, Option.or_assoc, Option.or_self]
    · rw [Option.or_none]

/-- As long as buffers and disk stay the same, so do the documents. -/
theorem provider_steady (d : Disk) (w : Workspace) : (provider d).Steady w where
  list_eq ht pattern := by
    obtain ⟨⟨cache, rfl⟩, -⟩ := reaches_kept ht
    rfl
  read_eq ht u := by
    obtain ⟨⟨cache, rfl⟩, hkept⟩ := reaches_kept ht
    rw [provider_read, provider_read, hkept u]

end Workspace

/-! ## What is collected and what is found -/

namespace Provider

variable {σ : Type} {p : Provider σ} {s t : σ} {pattern name : String}

/-- A search that cannot find anything reads all documents. -/
theorem walk_reads_all (p : Provider σ) {τ : Type} (visit : Visitor τ Empty) (n : Nat) (s : σ)
    (m : τ) (us : List Url) : (p.walk visit none n s m us).reads = p.texts s us := by
  have hnone : ∀ o ∈ visit.finds m (p.texts s us), o.isSome = false := by
    rintro (_ | found) -
    · rfl
    · exact found.elim
  rw [walk_reads, List.findIdx_eq_length.2 hnone, Visitor.length_finds]
  exact List.take_of_length_le (Nat.le_succ _)

/-- A class is collected from a document that is listed and can be read. -/
theorem mem_classNames_iff (h : p.Steady s) (ht : p.Reaches s t) :
    name ∈ (p.classNames pattern none t).1 ↔ ∃ listed, p.list s pattern = some listed ∧
      ∃ u ∈ listed, ∃ text, (p.read s u).1 = some text ∧ (Sheet.parse text).Selects name := by
  have hlist := h.list_eq ht pattern
  rw [mem_classNames, classNames]
  cases hlisted : p.list s pattern with
  | none =>
    rw [hlisted] at hlist
    simp [search_unlisted hlist, SearchRun.documents, classesOf]
  | some listed =>
    rw [hlisted] at hlist
    simp only [search_listed hlist, SearchRun.documents, walk_reads_all, h.texts_eq ht, classesOf,
      List.mem_flatMap, List.mem_filterMap, List.mem_map, Sheet.mem_classNames, Option.some.injEq,
      exists_eq_left']
    constructor
    · rintro ⟨d, ⟨r, ⟨u, hu, rfl⟩, hread⟩, hselects⟩
      obtain ⟨text, htext, rfl⟩ := Option.map_eq_some_iff.1 hread
      exact ⟨u, (mem_searchOrder.1 hu).1, text, htext, hselects⟩
    · rintro ⟨u, hu, text, htext, hselects⟩
      refine ⟨(u, text), ⟨_, ⟨u, mem_searchOrder.2 ⟨hu, by simp⟩, rfl⟩, ?_⟩, hselects⟩
      simp [htext]

/-- Where a class is selected first: by the first selector in the first document that can be
    read and selects it. -/
structure SelectedFirst (listed : List Url) (text? : Url → Option String) (name : String)
    (l : Location) : Prop where
  mem_listed : l.url ∈ listed
  selected : ∃ text sel, text? l.url = some text ∧
    (Sheet.parse text).findClass? name = some sel ∧ l.range = (Sheet.parse text).range sel.nameSpan
  first : ∀ u ∈ listed, u.text < l.url.text → ∀ text, text? u = some text →
    ¬ (Sheet.parse text).Selects name

theorem classIn?_eq_none {u : Url} {s : Sheet} :
    classIn? name u s = none ↔ ¬ s.Selects name := by
  rw [classIn?, Option.map_eq_none_iff, ← Sheet.findClass?_isSome]
  simp

theorem classIn?_eq_some {u : Url} {s : Sheet} {l : Location} : classIn? name u s = some l ↔
    l.url = u ∧ ∃ sel, s.findClass? name = some sel ∧ l.range = s.range sel.nameSpan := by
  rw [classIn?, Option.map_eq_some_iff]
  constructor
  · rintro ⟨sel, hsel, rfl⟩
    exact ⟨rfl, sel, hsel, rfl⟩
  · rintro ⟨rfl, sel, hsel, hrange⟩
    exact ⟨sel, hsel, by rw [← hrange]⟩

theorem findClass_unlisted (h : p.Steady s) (ht : p.Reaches s t)
    (hlisted : p.list s pattern = none) : (p.findClass name pattern none t).found = none := by
  rw [findClass, search_unlisted ((h.list_eq ht pattern).trans hlisted)]

theorem findClass_listed (h : p.Steady s) (ht : p.Reaches s t) {listed : List Url}
    (hlisted : p.list s pattern = some listed) :
    (p.findClass name pattern none t).found = (searchOrder none listed).findSome? fun u =>
      (p.read s u).1.bind fun text => classIn? name u (Sheet.parse text) := by
  rw [findClass, search_listed ((h.list_eq ht pattern).trans hlisted), walk_found,
    Visitor.finds_plain, h.texts_eq ht, List.map_map, List.findSome?_map]
  rfl

/-- A class is found when a document that is listed and can be read selects it. -/
theorem findClass_isSome (h : p.Steady s) (ht : p.Reaches s t) :
    (p.findClass name pattern none t).found.isSome = true ↔ ∃ listed,
      p.list s pattern = some listed ∧ ∃ u ∈ listed, ∃ text, (p.read s u).1 = some text ∧
        (Sheet.parse text).Selects name := by
  cases hlisted : p.list s pattern with
  | none => simp [findClass_unlisted h ht hlisted]
  | some listed =>
    rw [findClass_listed h ht hlisted, List.findSome?_isSome_iff]
    simp only [mem_searchOrder, Option.some.injEq, exists_eq_left']
    constructor
    · rintro ⟨u, ⟨hu, -⟩, hsome⟩
      obtain ⟨l, hl⟩ := Option.isSome_iff_exists.1 hsome
      obtain ⟨text, htext, hl⟩ := Option.bind_eq_some_iff.1 hl
      obtain ⟨-, sel, hsel, -⟩ := classIn?_eq_some.1 hl
      exact ⟨u, hu, text, htext, Sheet.findClass?_isSome.1 (by simp [hsel])⟩
    · rintro ⟨u, hu, text, htext, hselects⟩
      refine ⟨u, ⟨hu, by simp⟩, ?_⟩
      rw [htext, Option.bind_some, classIn?, Option.isSome_map]
      exact Sheet.findClass?_isSome.2 hselects

/-- A class is found where it is selected first. -/
theorem findClass_eq_some (h : p.Steady s) (ht : p.Reaches s t) {l : Location} :
    (p.findClass name pattern none t).found = some l ↔ ∃ listed, p.list s pattern = some listed ∧
      SelectedFirst listed (fun u => (p.read s u).1) name l := by
  cases hlisted : p.list s pattern with
  | none => simp [findClass_unlisted h ht hlisted]
  | some listed =>
    have hincreasing := searchOrder_increasing none listed
    have hmem : ∀ u, u ∈ searchOrder none listed ↔ u ∈ listed := fun u => by simp [mem_searchOrder]
    rw [findClass_listed h ht hlisted, List.findSome?_eq_some_iff]
    simp only [Option.some.injEq, exists_eq_left']
    constructor
    · rintro ⟨before, u, after, horder, hfound, hbefore⟩
      obtain ⟨text, htext, hfound⟩ := Option.bind_eq_some_iff.1 hfound
      obtain ⟨rfl, sel, hsel, hrange⟩ := classIn?_eq_some.1 hfound
      refine ⟨(hmem l.url).1 (by simp [horder]), ⟨text, sel, htext, hsel, hrange⟩, ?_⟩
      intro v hv hlt text' htext' hselects
      -- What comes before a document in the order is looked at before it.
      have hv' : v ∈ before := by
        rw [← hmem, horder] at hv
        rcases List.mem_append.1 hv with hv | hv
        · exact hv
        · rw [horder] at hincreasing
          have hafter := (List.pairwise_append.1 hincreasing).2.1
          rcases List.mem_cons.1 hv with rfl | hv
          · exact absurd hlt (lt_irrefl _)
          · exact absurd hlt (lt_asymm (List.rel_of_pairwise_cons hafter hv))
      have hnone := hbefore v hv'
      rw [htext', Option.bind_some, classIn?_eq_none] at hnone
      exact hnone hselects
    · rintro ⟨hl, ⟨text, sel, htext, hsel, hrange⟩, hfirst⟩
      obtain ⟨before, after, horder⟩ := List.append_of_mem ((hmem l.url).2 hl)
      refine ⟨before, l.url, after, horder, ?_, ?_⟩
      · rw [htext, Option.bind_some]
        exact classIn?_eq_some.2 ⟨rfl, sel, hsel, hrange⟩
      · intro v hv
        rw [horder] at hincreasing
        have hlt : v.text < l.url.text :=
          (List.pairwise_append.1 hincreasing).2.2 v hv l.url List.mem_cons_self
        have hv' : v ∈ listed := (hmem v).1 (by simp [horder, hv])
        cases htext' : (p.read s v).1 with
        | none => rfl
        | some text' => exact classIn?_eq_none.2 (hfirst v hv' hlt text' htext')

/-- **Classes are collected exactly when they are found,** each where it is selected first. -/
theorem classes_agree {t' : σ} (h : p.Steady s)
    (hsize : ∀ listed ∈ p.list s pattern, ∀ u ∈ listed, ∀ text ∈ (p.read s u).1,
      Text.byteLength text.toList < UInt32.size)
    (ht : p.Reaches s t) (ht' : p.Reaches s t') (name : String) :
    (name ∈ (p.classNames pattern none t).1 ↔
      (p.findClass name pattern none t').found.isSome = true) ∧
    (∀ l, (p.findClass name pattern none t').found = some l → ∃ listed text,
      p.list s pattern = some listed ∧ SelectedFirst listed (fun u => (p.read s u).1) name l ∧
      (p.read s l.url).1 = some text ∧ Text.atRange? text.toList l.range = some name.toList) ∧
    (p.classNames pattern none t).1.Pairwise (· < ·) := by
  refine ⟨(mem_classNames_iff h ht).trans (findClass_isSome h ht').symm, ?_,
    sortedDistinct_increasing _⟩
  intro l hl
  obtain ⟨listed, hlisted, hfirst⟩ := (findClass_eq_some h ht').1 hl
  obtain ⟨text, sel, htext, hsel, hrange⟩ := hfirst.selected
  have hshort := hsize listed hlisted l.url hfirst.mem_listed text htext
  refine ⟨listed, text, hlisted, hfirst, htext, ?_⟩
  rw [hrange]
  exact (Sheet.shows_findClass? hsel hshort).atRange_eq

/-- Three files, of which the first has no text and the others select one class. -/
def classDisk : Disk :=
  ((Disk.empty.write ["w", "a.uss"] (.file none)).write
    ["w", "b.uss"] (.file (some "x,\r\n.é😀\x7b\x7d"))).write
    ["w", "c.uss"] (.file (some ".é😀\x7b\x7d"))

/-- The URLs of the files. -/
def classUrls : List Url :=
  ["/w/a.uss", "/w/b.uss", "/w/c.uss"].map fun path => .ofPath (.ofText path)

/-- A workspace of the files. -/
def classWorkspace : Workspace := { root := some (.ofText "/w") }

theorem classes_agree_files :
    let p := Workspace.provider classDisk
    let (names, run) := p.classNames sheetPattern none classWorkspace
    "é😀" ∈ names ∧
    ∃ l text, (p.findClass "é😀" sheetPattern none run.state).found = some l ∧
      (p.read classWorkspace l.url).1 = some text ∧
      Text.atRange? text.toList l.range = some "é😀".toList := by
  intro p
  obtain ⟨urls, hurls⟩ : ∃ urls, classWorkspace.list classDisk sheetPattern = .ok urls :=
    Workspace.exists_list rfl (by decide +kernel)
  have hlist : p.list classWorkspace sheetPattern = some urls := by
    simp [p, Workspace.provider, hurls, Except.toOption]
  have hfiles : classDisk.listing? (.ofText "/w") sheetPattern classWorkspace.settings.exclude =
      some classUrls := by decide +kernel
  have hmem : ∀ u, u ∈ urls ↔ u ∈ classUrls := by
    intro u
    rw [Workspace.mem_list hurls]
    constructor
    · rintro (⟨hopen, -⟩ | ⟨root, hroot, files, hfiles', hu⟩)
      · simp [classWorkspace] at hopen
      · obtain rfl := Option.some.inj hroot
        rwa [← Option.some.inj (hfiles.symm.trans hfiles')] at hu
    · exact fun hu => .inr ⟨_, rfl, _, hfiles, hu⟩
  have hsize : ∀ listed ∈ p.list classWorkspace sheetPattern, ∀ u ∈ listed,
      ∀ text ∈ (p.read classWorkspace u).1, Text.byteLength text.toList < UInt32.size := by
    intro listed hlisted u hu
    obtain rfl := Option.some.inj (hlist.symm.trans hlisted)
    have hall : ∀ u ∈ classUrls, ∀ text ∈ (p.read classWorkspace u).1,
        Text.byteLength text.toList < UInt32.size := by decide +kernel
    exact hall u ((hmem u).1 hu)
  have hsteady := Workspace.provider_steady classDisk classWorkspace
  have hnames : "é😀" ∈ (p.classNames sheetPattern none classWorkspace).1 :=
    (mem_classNames_iff hsteady .refl).2 ⟨urls, hlist, .ofPath (.ofText "/w/c.uss"),
      (hmem _).2 (by decide +kernel), ".é😀\x7b\x7d", by decide +kernel,
      Sheet.findClass?_isSome.1 (by decide +kernel)⟩
  obtain ⟨hiff, hfound, -⟩ :=
    classes_agree hsteady hsize .refl (Reaches.refl.search collectClasses none none []) "é😀"
  obtain ⟨l, hl⟩ := Option.isSome_iff_exists.1 (hiff.1 hnames)
  obtain ⟨-, text, -, -, htext, hrange⟩ := hfound l hl
  exact ⟨hnames, l, text, hl, htext, hrange⟩

end Provider

end StyleServer
