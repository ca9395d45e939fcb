/-
  What checking files reports.

  A diagnostic for an undefined variable does not carry its reference.  The reference is found
  again from the place of the diagnostic, and its name is then looked for in the other files:

  * `Sheet.ref_of_undefined`: such a diagnostic reports a reference of the sheet, and
    `Check.undefined?_eq` finds this reference.
  * `Check.get?_documents`: the other files are those with other URLs, because files that have
    one URL have one text.
  * `Check.files_exact`: so exactly those variables are left out that another file declares.
-/
import StyleServer.Proofs.Search.Documents
import StyleServer.Proofs.Sheet.Blocks
import StyleServer.Proofs.Sheet.Fidelity
import StyleServer.Proofs.Sheet.Lookup
import StyleServer.Proofs.Url.File
import Mathlib.Data.List.Induction

namespace StyleServer

/-! ## Undefined variables -/

theorem braceDiagnosticsFrom_issue {text : Text} {depth : Nat} {ts : List Token} {d : Diagnostic}
    (h : d ∈ braceDiagnosticsFrom text depth ts) (name : String) :
    d.issue ≠ .undefinedVariable name := by
  induction ts generalizing depth with
  | nil =>
    simp only [braceDiagnosticsFrom] at h
    split at h
    · simp [List.mem_singleton.1 h]
    · simp at h
  | cons t ts ih =>
    rcases List.mem_append.1 h with h | h
    · rcases braceIssue?_eq_some (Option.mem_toList.1 h) with hissue | hissue
      · simp [hissue]
      · simp [hissue]
    · exact ih h

namespace Sheet

theorem propertyIssue?_issue {s : Sheet} {r : Registry} {decl : Declaration} {d : Diagnostic}
    (h : s.propertyIssue? r decl = some d) (name : String) : d.issue ≠ .undefinedVariable name := by
  simp only [propertyIssue?] at h
  split at h
  · simp at h
  · split at h
    · simp [← Option.some.inj h]
    · split at h
      · simp at h
      · simp [← Option.some.inj h]

/-- An undefined variable is reported for a reference to it. -/
theorem ref_of_undefined {s : Sheet} {knowledge : Option Registry} {d : Diagnostic} {name : String}
    (hd : d ∈ s.validate knowledge) (hissue : d.issue = .undefinedVariable name) :
    ∃ ref ∈ s.declarations.flatMap Declaration.refs,
      ref.name = name ∧ d.range = s.range ref.span := by
  rw [validate, List.mem_mergeSort, List.mem_append, List.mem_append] at hd
  rcases hd with (hd | hd) | hd
  · exact absurd hissue (braceDiagnosticsFrom_issue hd name)
  · obtain ⟨ref, href, rfl⟩ := List.mem_map.1 hd
    exact ⟨ref, (List.mem_filter.1 href).1, Issue.undefinedVariable.inj hissue, rfl⟩
  · cases knowledge with
    | none => simp at hd
    | some r =>
      obtain ⟨decl, -, hdecl⟩ := List.mem_filterMap.1 hd
      exact absurd hissue (propertyIssue?_issue hdecl name)

end Sheet

namespace Check

/-- The reference is found again from the place of the diagnostic. -/
theorem undefined?_eq {text : String} (hsize : Text.byteLength text.toList < UInt32.size)
    {knowledge : Option Registry} {d : Diagnostic} {name : String}
    (hd : d ∈ (Sheet.parse text).validate knowledge)
    (hissue : d.issue = .undefinedVariable name) :
    ∃ ref, undefined? (Sheet.parse text) d = some ref ∧ ref.name = name := by
  obtain ⟨ref, href, hname, hrange⟩ := Sheet.ref_of_undefined hd hissue
  obtain ⟨decl, hdecl, hmem⟩ := List.mem_flatMap.1 href
  have hoffset : (Sheet.parse text).source.offset? d.range.start = some ref.span.start := by
    rw [hrange]
    exact ((Sheet.ofText_faithful hsize).refs decl hdecl ref hmem).recovers.start_eq
  have hat : (Sheet.parse text).refAt? ref.span.start = some ref := by
    obtain ⟨rule, hrule, hin⟩ := List.mem_flatMap.1 hdecl
    have hrule := (Sheet.ofText_wellLaid text.toList).rules_laid rule hrule
    have hpos := ((hrule.declarations_laid decl hin).refs_inside ref hmem).2
    refine ((Sheet.refAt?_onlyAt text.toList ref.span.start).found_iff ref).2 ⟨href, ?_⟩
    exact Span.touches_iff.2 ⟨Nat.le_refl _, Nat.le_of_lt hpos⟩
  exact ⟨ref, by simp [undefined?, hissue, hoffset, hat], hname⟩

/-! ## Files by their URLs -/

section
variable {disk : Disk} {current : Path} {knowledge : Option Registry} {fs : List CheckedFile}

/-- Files of one URL have one text. -/
def Agree (current : Path) (fs : List CheckedFile) : Prop :=
  ∀ f ∈ fs, ∀ g ∈ fs, pathUrl current f.path = pathUrl current g.path → f.text = g.text

/-- The documents are the files. -/
theorem get?_documents (h : Agree current fs) {u : Url} {text : String} :
    (documents current fs).get? u = some text ↔
      ∃ f ∈ fs, pathUrl current f.path = u ∧ f.text = text := by
  induction fs using List.reverseRecOn with
  | nil => simp [documents, Documents.empty, Documents.get?]
  | append_singleton fs f ih =>
    have hfs : Agree current fs := fun g hg g' hg' =>
      h g (List.mem_append_left _ hg) g' (List.mem_append_left _ hg')
    have hinsert : documents current (fs ++ [f]) =
        (documents current fs).insert (pathUrl current f.path) f.text := by
      simp [documents]
    rw [hinsert, Documents.get?_insert]
    split_ifs with hu
    · constructor
      · intro htext
        exact ⟨f, by simp, hu.symm, Option.some.inj htext⟩
      · rintro ⟨g, hg, hgu, rfl⟩
        rw [h f (by simp) g hg (hu.symm.trans hgu.symm)]
    · rw [ih hfs]
      constructor
      · rintro ⟨g, hg, hgu, htext⟩
        exact ⟨g, List.mem_append_left _ hg, hgu, htext⟩
      · rintro ⟨g, hg, hgu, htext⟩
        rcases List.mem_append.1 hg with hg | hg
        · exact ⟨g, hg, hgu, htext⟩
        · exact absurd (List.mem_singleton.1 hg ▸ hgu.symm) hu

/-- Another file of the list, which matches the pattern, declares a variable. -/
def DeclaredByOther (current : Path) (fs : List CheckedFile) (f : CheckedFile) (name : String) :
    Prop :=
  ∃ g ∈ fs, pathUrl current g.path ≠ pathUrl current f.path ∧
    (pathUrl current g.path).matchesGlob sheetPattern = true ∧ (Sheet.parse g.text).Declares name

instance (f : CheckedFile) (name : String) : Decidable (DeclaredByOther current fs f name) :=
  inferInstanceAs (Decidable (∃ g ∈ fs, _))

/-- A diagnostic is left out: the variable that it reports is declared by another file. -/
def isDropped (current : Path) (fs : List CheckedFile) (f : CheckedFile) (d : Diagnostic) : Bool :=
  match d.issue with
  | .undefinedVariable name => decide (DeclaredByOther current fs f name)
  | _ => false

/-- The diagnostics of a file, without those left out. -/
def expected (current : Path) (knowledge : Option Registry) (fs : List CheckedFile)
    (f : CheckedFile) : CheckResult :=
  ⟨f.path, ((Sheet.parse f.text).validate knowledge).filter fun d => !isDropped current fs f d⟩

theorem isDropped_iff {f : CheckedFile} {d : Diagnostic} :
    isDropped current fs f d = true ↔
      ∃ name, d.issue = .undefinedVariable name ∧ DeclaredByOther current fs f name := by
  unfold isDropped
  split
  · next name hissue => simp [hissue]
  · next hother =>
    constructor
    · intro h
      exact absurd h (by simp)
    · rintro ⟨name, hissue, -⟩
      exact absurd hissue (hother name)

theorem expected_perm {gs : List CheckedFile} (h : gs.Perm fs) :
    expected current knowledge gs = expected current knowledge fs := by
  have hother : DeclaredByOther current gs = DeclaredByOther current fs := by
    funext f name
    simp only [DeclaredByOther, h.mem_iff]
  funext f
  simp only [expected, isDropped, hother]

theorem declaredElsewhere_eq (h : Agree current fs) {f : CheckedFile}
    (hsize : Text.byteLength f.text.toList < UInt32.size) {d : Diagnostic}
    (hd : d ∈ (Sheet.parse f.text).validate knowledge) :
    declaredElsewhere (documents current fs) (pathUrl current f.path) (Sheet.parse f.text) d =
      isDropped current fs f d := by
  by_cases hvariable : ∃ name, d.issue = .undefinedVariable name
  · obtain ⟨name, hissue⟩ := hvariable
    obtain ⟨ref, href, hname⟩ := undefined?_eq hsize hd hissue
    simp only [declaredElsewhere, href, isDropped, hissue, hname]
    rw [Bool.eq_iff_iff, Documents.findVariable_isSome, decide_eq_true_iff]
    constructor
    · rintro ⟨u, text, htext, hne, hpattern, hdeclares⟩
      obtain ⟨g, hg, rfl, rfl⟩ := (get?_documents h).1 htext
      exact ⟨g, hg, hne, hpattern, hdeclares⟩
    · rintro ⟨g, hg, hne, hpattern, hdeclares⟩
      exact ⟨_, g.text, (get?_documents h).2 ⟨g, hg, rfl, rfl⟩, hne, hpattern, hdeclares⟩
  · have hdropped : isDropped current fs f d = false :=
      Bool.eq_false_iff.2 fun hd => hvariable ((isDropped_iff.1 hd).imp fun _ => And.left)
    have hnone : undefined? (Sheet.parse f.text) d = none := by
      unfold undefined?
      split
      · next name hissue => exact absurd ⟨name, hissue⟩ hvariable
      · rfl
    rw [hdropped, declaredElsewhere, hnone]

theorem file_eq_expected (h : Agree current fs) {f : CheckedFile}
    (hsize : Text.byteLength f.text.toList < UInt32.size) :
    file (documents current fs) current knowledge f = expected current knowledge fs f := by
  simp only [file, expected, CheckResult.mk.injEq, true_and]
  exact List.filter_congr fun d hd => by rw [declaredElsewhere_eq h hsize hd]

/-! ## Reports -/

theorem load_ok {read : String → Except ReadError String}
    (h : ∀ f ∈ fs, read f.path = .ok f.text) : load read (fs.map (·.path)) = .ok fs := by
  induction fs with
  | nil => rfl
  | cons f fs ih =>
    have hrest := ih fun g hg => h g (List.mem_cons_of_mem f hg)
    simp only [List.map_cons, load, h f List.mem_cons_self, hrest]
    rfl

/-- What is left out is no error. -/
theorem isDropped_isError {f : CheckedFile} {d : Diagnostic} (h : isDropped current fs f d = true) :
    d.isError = false := by
  obtain ⟨name, hissue, -⟩ := isDropped_iff.1 h
  simp [Diagnostic.isError, Diagnostic.severity, hissue, Issue.severity]

theorem exitCode_report_expected (current : Path) (knowledge : Option Registry)
    (fs : List CheckedFile) :
    (report (fs.map (expected current knowledge fs))).exitCode =
      if fs.all fun f => isValid ((Sheet.parse f.text).validate knowledge) then 0 else 1 := by
  have herrors : 0 < ((fs.map (expected current knowledge fs)).flatMap
      (·.diagnostics)).countP Diagnostic.isError ↔
      ¬ (fs.all fun f => isValid ((Sheet.parse f.text).validate knowledge)) = true := by
    simp only [List.countP_pos_iff, List.mem_flatMap, List.mem_map, List.all_eq_true, isValid,
      Bool.not_eq_true', List.any_eq_false, not_forall, exists_prop]
    constructor
    · rintro ⟨d, ⟨r, ⟨f, hf, rfl⟩, hd⟩, herror⟩
      exact ⟨f, hf, d, (List.mem_filter.1 hd).1, by simpa using herror⟩
    · rintro ⟨f, hf, d, hd, herror⟩
      have herror : d.isError = true := by simpa using herror
      refine ⟨d, ⟨_, ⟨f, hf, rfl⟩, List.mem_filter.2 ⟨hd, ?_⟩⟩, herror⟩
      cases hdropped : isDropped current fs f d with
      | true => exact absurd herror (by simp [isDropped_isError hdropped])
      | false => rfl
  simp only [report]
  by_cases hvalid : (fs.all fun f => isValid ((Sheet.parse f.text).validate knowledge)) = true
  · rw [if_pos hvalid, if_neg fun hpos => herrors.1 hpos hvalid]
  · rw [if_neg hvalid, if_pos (herrors.2 hvalid)]

/-- Files that are checked exactly. -/
structure Exact (disk : Disk) (current : Path) (knowledge : Option Registry)
    (fs : List CheckedFile) : Prop where
  /-- Each file has the diagnostics of its sheet in their order, without the variables that
      another file declares. -/
  results : files current knowledge fs = fs.map fun f =>
    ⟨f.path, ((Sheet.parse f.text).validate knowledge).filter fun d => !isDropped current fs f d⟩
  /-- Nothing else is left out. -/
  others : ∀ f ∈ fs, ∀ d ∈ (Sheet.parse f.text).validate knowledge,
    (∀ name, d.issue ≠ .undefinedVariable name) →
      d ∈ (file (documents current fs) current knowledge f).diagnostics
  /-- In another order, each file has the same diagnostics. -/
  reordered : ∀ gs, gs.Perm fs →
    files current knowledge gs = gs.map (file (documents current fs) current knowledge)
  /-- The command fails exactly when a sheet is not valid. -/
  exits : ∀ given : Arguments, given.files = fs.map (·.path) →
    (if given.flags.contains "no-properties" then none else some Registry.builtin) = knowledge →
    run current (disk.readPath current) given = report (files current knowledge fs) ∧
    (run current (disk.readPath current) given).exitCode =
      if fs.all fun f => isValid ((Sheet.parse f.text).validate knowledge) then 0 else 1

/-- **Files are checked exactly.** -/
theorem files_exact (hcurrent : current.Proper)
    (hread : ∀ f ∈ fs, disk.readPath current f.path = .ok f.text)
    (hsize : ∀ f ∈ fs, Text.byteLength f.text.toList < UInt32.size) :
    Exact disk current knowledge fs := by
  have hagree : Agree current fs := fun f hf g hg hurl =>
    Disk.readPath_eq_of_pathUrl hcurrent hurl (hread f hf) (hread g hg)
  have hresults : files current knowledge fs = fs.map (expected current knowledge fs) :=
    List.map_congr_left fun f hf => file_eq_expected hagree (hsize f hf)
  refine ⟨hresults, ?_, ?_, ?_⟩
  · intro f hf d hd hother
    rw [file_eq_expected hagree (hsize f hf)]
    have hkept : ¬ isDropped current fs f d = true := fun hdropped => by
      obtain ⟨name, hissue, -⟩ := isDropped_iff.1 hdropped
      exact hother name hissue
    exact List.mem_filter.2 ⟨hd, by simpa using hkept⟩
  · intro gs hperm
    have hagree' : Agree current gs := fun f hf g hg =>
      hagree f (hperm.mem_iff.1 hf) g (hperm.mem_iff.1 hg)
    refine List.map_congr_left fun f hf => ?_
    have hf' := hsize f (hperm.mem_iff.1 hf)
    rw [file_eq_expected hagree' hf', file_eq_expected hagree hf', expected_perm hperm]
  · intro given hfiles hknowledge
    have hrun : run current (disk.readPath current) given =
        report (files current knowledge fs) := by
      simp only [run, hfiles, load_ok hread, hknowledge]
    exact ⟨hrun, by rw [hrun, hresults, exitCode_report_expected]⟩

end

/-- Two files, one of which declares a variable of the other. -/
def twoFiles : List CheckedFile :=
  [⟨"a.uss", "a\x7bb:var(--x) var(--y)\x7d"⟩, ⟨"./b.uss", "c\x7b--x:d\x7d"⟩]

/-- A disk with the two files. -/
def twoFilesDisk : Disk :=
  (Disk.empty.write ["w", "a.uss"] (.file (some "a\x7bb:var(--x) var(--y)\x7d"))).write
    ["w", "b.uss"] (.file (some "c\x7b--x:d\x7d"))

/-- Of the two variables of the first file, one is left out. -/
theorem twoFiles_exact :
    (∀ f ∈ twoFiles, twoFilesDisk.readPath ["w"] f.path = .ok f.text) ∧
    (twoFiles.map fun f => (Sheet.parse f.text).variableDiagnostics.map fun d =>
      (d.issue, isDropped ["w"] twoFiles f d)) =
      [[(.undefinedVariable "--x", true), (.undefinedVariable "--y", false)], []] ∧
    Exact twoFilesDisk ["w"] none twoFiles :=
  ⟨by decide +kernel, by decide +kernel,
    files_exact (by decide) (by decide +kernel) (by decide +kernel)⟩

end Check

end StyleServer
