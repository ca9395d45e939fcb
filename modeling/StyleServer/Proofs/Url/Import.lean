/-
  Imports from the root of a workspace.

  The path of such an import is read relative to the root as a directory, and what it leads to
  lies below the root unless the path names a scheme, a host or a drive of its own, or goes up.

  * `UrlParts.IsFile.asDirectory`: a root as a directory has its path, with a slash behind it.
  * `UrlParts.isBelow_read`: what is read behind the path of a directory goes on where it ends.
  * `UrlParts.join?_below`: so does what is read relative to a directory.
  * `importTarget?_liesIn`: imports from the root lie in it.
-/
import StyleServer.Proofs.Url.Place
import StyleServer.Url.Import

namespace StyleServer

namespace Url

/-- The root of a workspace: the URL of a file that was read, or that of a directory. -/
inductive IsRoot : Url → Prop where
  | read {text : String} {root : Url} (h : parse? text = some root)
      (hscheme : root.scheme = "file") : IsRoot root
  | directory (p : WrittenPath) : IsRoot (ofDirectory p)

theorem IsRoot.isFile {root : Url} (h : root.IsRoot) : root.IsFile := by
  cases h with
  | read h hscheme => exact isFile_of_parse? h hscheme
  | directory p => exact isFile_ofDirectory p

end Url

/-! ## Directories -/

namespace UrlParts

variable {b root u : UrlParts} {text rest : Text}

/-- The path with a slash behind it, if it has none. -/
def directoryText (u : UrlParts) : Text :=
  let text := u.pathText.toList
  if text.getLast? = some '/' then text else text ++ ['/']

/-- The path ends with a slash, or it can be followed by one: it has no dots, and its drive is
    written with a colon. -/
def TakesSlash (u : UrlParts) : Prop :=
  u.pathText.toList.getLast? = some '/' ∨
    (∀ name ∈ u.segments, Url.isDot name.toList = false ∧ Url.isDotDot name.toList = false) ∧
      ∀ name ∈ u.segments.head?,
        Url.isDrive name.toList = true → Url.isNormalDrive name.toList = true

/-- A slash behind each name, or before it. -/
theorem flatMap_slash (names : List Text) :
    names.flatMap ('/' :: ·) ++ ['/'] = '/' :: names.flatMap (· ++ ['/']) := by
  induction names with
  | nil => rfl
  | cons name names ih =>
    rw [List.flatMap_cons, List.flatMap_cons, List.append_assoc, ih]
    simp

/-- The names of a directory are read as they are, from nothing or from a slash. -/
theorem read_directory {names : List Text} (hnames : ∀ name ∈ names, PathDraft.IsName name)
    (hdrive : ∀ name ∈ names.head?, Url.isDrive name = true → Url.isNormalDrive name = true) :
    (PathDraft.read .file ['/'] (names.flatMap (· ++ ['/']))).settled.reverse =
        '/' :: names.flatMap (· ++ ['/']) ∧
      (PathDraft.read .file [] ('/' :: names.flatMap (· ++ ['/']))).settled.reverse =
        '/' :: names.flatMap (· ++ ['/']) := by
  have hdivide := Url.divide_file_names fun name hname => (hnames name hname).chars
  have hread : (PathDraft.readParts .file { settled := ['/'] } (names ++ [[]])).settled.reverse =
      '/' :: names.flatMap (· ++ ['/']) :=
    PathDraft.readParts_clean rfl rfl hnames fun _ => hdrive
  constructor
  · rw [PathDraft.read, hdivide]
    exact hread
  · have hparts : (!(names ++ [[]]).isEmpty) = true := by simp
    have hslash : Url.divide .file ('/' :: names.flatMap (· ++ ['/'])) = [] :: (names ++ [[]]) := by
      rw [← hdivide]
      rfl
    rw [PathDraft.read, hslash, PathDraft.readParts, hparts]
    exact hread

/-- **A root as a directory** has its path, with a slash behind it. -/
theorem IsFile.asDirectory (h : root.IsFile) (hslash : root.TakesSlash) :
    root.asDirectory.IsFile ∧ root.asDirectory.authority = root.authority ∧
      root.asDirectory.pathText.toList = root.directoryText := by
  by_cases hends : root.pathText.toList.getLast? = some '/'
  · have hsame : root.asDirectory = root := if_pos hends
    have htext : root.directoryText = root.pathText.toList := if_pos hends
    rw [hsame, htext]
    exact ⟨h, rfl, rfl⟩
  · obtain ⟨names, hnames, hpath, htext⟩ := h.exists_names
    obtain ⟨hdots, hdrive⟩ := hslash.resolve_left hends
    have hsegments : root.segments = names.map String.ofList := by rw [UrlParts.segments, hpath]
    have hdirectory : root.directoryText = '/' :: names.flatMap (· ++ ['/']) := by
      rw [← flatMap_slash, ← htext]
      exact if_neg hends
    have hclean : ∀ name ∈ names, PathDraft.IsName name := by
      intro name hname
      have := hdots (String.ofList name) (hsegments ▸ List.mem_map_of_mem hname)
      rw [String.toList_ofList] at this
      exact ⟨hnames.chars name hname, this.1, this.2⟩
    have hfirst : ∀ name ∈ names.head?, Url.isDrive name = true →
        Url.isNormalDrive name = true := by
      intro name hname
      have := hdrive (String.ofList name) (by rw [hsegments, List.head?_map, hname]; rfl)
      rwa [String.toList_ofList] at this
    obtain ⟨d, hd, hread, hroot⟩ : ∃ d : PathDraft, d.Clean ∧
        d.settled.reverse = '/' :: names.flatMap (· ++ ['/']) ∧
        root.asDirectory = { root with path := UrlPath.segments (d.segments .file) } := by
      obtain ⟨hslash, hnothing⟩ := read_directory hclean hfirst
      rw [UrlParts.asDirectory, h.scheme]
      dsimp only
      rw [if_neg hends, hpath, htext, flatMap_slash]
      dsimp only
      split
      · exact ⟨_, PathDraft.clean_read (List.forall_mem_nil _) _, hnothing, rfl⟩
      · exact ⟨_, PathDraft.clean_read (by simp) _, hslash, rfl⟩
    -- The first name is not empty, or else the path would end with its slash.
    have hkept : (names.flatMap (· ++ ['/'])).dropWhile (· == '/') =
        names.flatMap (· ++ ['/']) := by
      rcases hnames.cases with rfl | ⟨c, name, rest, rfl, hc⟩
      · exact absurd (congrArg List.getLast? htext) hends
      · exact List.dropWhile_cons_of_neg (by simpa using hc)
    rw [hroot, hdirectory]
    refine ⟨⟨h.scheme, h.authority, _, hd.fileNames, ?_⟩, rfl, ?_⟩
    · rw [PathDraft.segments_file]
    · rw [UrlParts.pathText, PathDraft.text_segments_file, hread, List.dropWhile_cons_of_pos rfl,
        hkept]

theorem hostText_congr {v : UrlParts} (h : u.authority = v.authority) :
    u.hostText = v.hostText := by
  rw [UrlParts.hostText, UrlParts.hostText, h]

/-! ## Below a directory -/

/-- The URL of a file goes on where the path of another ends. -/
structure IsBelow (b u : UrlParts) : Prop where
  file : u.IsFile
  authority : u.authority = b.authority
  path : b.pathText.toList <+: u.pathText.toList

theorem IsFile.isBelow (h : b.IsFile) (hscheme : u.scheme = b.scheme)
    (hauthority : u.authority = b.authority) (hpath : u.path = b.path) : b.IsBelow u where
  file := h.congr hscheme hauthority hpath
  authority := hauthority
  path := by rw [UrlParts.pathText, UrlParts.pathText, hpath]

theorem IsBelow.withSuffix (h : b.IsBelow u) (rest : Text) : b.IsBelow (u.withSuffix rest) :=
  ⟨h.file.withSuffix rest, h.authority, h.path⟩

theorem isBelow_onBase (hb : b.IsFile) (text : Text) : b.IsBelow (b.onBase text) := by
  unfold onBase
  split
  · exact hb.isBelow rfl rfl rfl
  · exact hb.isBelow rfl rfl rfl
  · exact hb.isBelow rfl rfl rfl

/-- A path that ends with a slash is its own directory. -/
theorem directory_of_slash (h : b.pathText.toList.getLast? = some '/') :
    b.directory = b.pathText.toList := by
  obtain ⟨above, habove⟩ := List.getLast?_eq_some_iff.1 h
  have hname : PathDraft.dropName (SchemeKind.of b.scheme) ('/' :: above.reverse) =
      '/' :: above.reverse := by
    rw [PathDraft.dropName]
    split <;> rfl
  rw [UrlParts.directory, habove, List.reverse_append, List.reverse_singleton,
    List.singleton_append, hname]
  simp

/-- The slashes at the front are one, where a path begins with those of a file. -/
theorem prefix_of_names {names : List Text} (hnames : Url.FileNames names) {s : Text}
    (h : names.flatMap ('/' :: ·) <+: s) :
    names.flatMap ('/' :: ·) <+: '/' :: s.dropWhile (· == '/') := by
  obtain ⟨more, rfl⟩ := h
  rcases hnames.cases with rfl | ⟨c, name, rest, rfl, hc⟩
  · exact List.prefix_append ['/'] _
  · have hdrop : ∀ s : Text, ('/' :: c :: s).dropWhile (· == '/') = c :: s := fun s => by simp [hc]
    rw [List.flatMap_cons, List.cons_append, List.cons_append, List.cons_append, List.cons_append,
      hdrop]
    exact ⟨more, rfl⟩

/-- **What is read behind the path of a directory** goes on where it ends. -/
theorem isBelow_read (hb : b.IsFile) (hslash : b.pathText.toList.getLast? = some '/')
    (hdots : ∀ part ∈ Url.divide .file text, Url.isDotDot (Url.squeeze part) = false) :
    b.IsBelow { b with path := .segments (Url.pathFrom .file b.directory text) } := by
  obtain ⟨names, hnames, -, htext⟩ := hb.exists_names
  have hchars : ∀ c ∈ b.pathText.toList, c = '/' ∨ isPathChar c = true := by
    intro c hc
    rw [htext] at hc
    obtain ⟨name, hname, hc⟩ := List.mem_flatMap.1 hc
    exact (List.mem_cons.1 hc).imp_right (hnames.chars name hname c)
  have hclean := PathDraft.clean_read hchars text
  have hsuffix : b.pathText.toList.reverse <:+
      (PathDraft.read .file b.pathText.toList text).settled :=
    PathDraft.readParts_suffix (d := .ofText b.pathText.toList) rfl
      (List.head?_reverse.trans hslash) hdots
  have hprefix : b.pathText.toList <+:
      (PathDraft.read .file b.pathText.toList text).settled.reverse := by
    rwa [← List.reverse_suffix, List.reverse_reverse]
  rw [directory_of_slash hslash]
  refine ⟨⟨hb.scheme, hb.authority, _, hclean.fileNames, ?_⟩, rfl, ?_⟩
  · rw [Url.pathFrom, PathDraft.segments_file]
  · show b.pathText.toList <+: (UrlPath.segments _).text.toList
    rw [Url.pathFrom, PathDraft.text_segments_file, htext]
    exact prefix_of_names hnames (htext ▸ hprefix)

/-- A text that is relative to a directory leads to a place below it: it begins with no slash,
    backslash or drive, and nothing between those stands for the directory above, where breaks
    do not count. -/
structure LeadsBelow (text : Text) : Prop where
  noSlash : (Url.squeeze (upToSuffix text).1).head?.any SchemeKind.file.divides = false
  noDrive : Url.startsWithDrive (Url.squeeze (upToSuffix text).1) = false
  noDots : ∀ part ∈ Url.divide .file (upToSuffix text).1, Url.isDotDot (Url.squeeze part) = false

theorem head?_squeeze {c : Char} (h : Url.next? text = some (c, rest)) :
    (Url.squeeze text).head? = some c := by
  unfold Url.next? at h
  split at h
  · cases h
  · next d behind hdrop =>
    obtain ⟨rfl, -⟩ := Prod.mk.inj (Option.some.inj h)
    rw [Url.squeeze, List.head?_filter, List.find?_eq_head?_dropWhile_not]
    simp [hdrop]

theorem file?_below (hb : b.IsFile) (hslash : b.pathText.toList.getLast? = some '/')
    (h : LeadsBelow text) : ∃ u, file? (some b) text = some u ∧ b.IsBelow u := by
  unfold file?
  dsimp only
  cases hnext : Url.next? (upToSuffix text).1 with
  | none => exact ⟨_, rfl, isBelow_onBase hb _⟩
  | some first =>
    obtain ⟨c, after⟩ := first
    have hdivides := h.noSlash
    rw [head?_squeeze hnext, Option.any_some] at hdivides
    have hbase : (some b).filter (fun _ =>
        !Url.startsWithDrive (Url.squeeze (upToSuffix text).1)) = some b := by
      rw [h.noDrive]
      rfl
    dsimp only
    rw [if_neg (by simp [hdivides]), hbase]
    exact ⟨_, rfl, (isBelow_read hb hslash h.noDots).withSuffix _⟩

/-- A text leads to a place below a directory, by itself or behind the scheme of files. -/
inductive StaysBelow (text : Text) : Prop where
  | plain (hscheme : Url.scheme? (Url.trimControls text) = none)
      (h : LeadsBelow (Url.trimControls text))
  | file {rest : Text} (hscheme : Url.scheme? (Url.trimControls text) = some ("file", rest))
      (h : LeadsBelow rest)

/-- **What is read relative to a directory** goes on where its path ends. -/
theorem join?_below (hb : b.IsFile) (hslash : b.pathText.toList.getLast? = some '/')
    {text : String} (h : StaysBelow text.toList) : ∃ u, b.join? text = some u ∧ b.IsBelow u := by
  unfold join?
  dsimp only
  rcases h with ⟨hscheme, h⟩ | ⟨hscheme, h⟩
  · have hplain : b.isPlain = false := by
      obtain ⟨names, -, hpath⟩ := hb.path
      rw [UrlParts.isPlain, hpath]
    rw [hscheme]
    dsimp only
    split
    · exact ⟨_, rfl, hb.isBelow rfl rfl rfl⟩
    · rw [if_neg (by simp [hplain]), if_pos hb.scheme]
      exact file?_below hb hslash h
  · have hbase : (some b).filter (fun b => b.scheme = "file") = some b := by
      rw [Option.filter_some, hb.scheme]
      rfl
    rw [hscheme]
    show ∃ u, file? ((some b).filter fun b => b.scheme = "file") _ = some u ∧ _
    rw [hbase]
    exact file?_below hb hslash h

end UrlParts

/-! ## Targets -/

/-- A URL has the scheme and the host of a root, and its path begins with that of the root as a
    directory. -/
structure Url.LiesIn (target root : Url) : Prop where
  scheme : target.scheme = root.scheme
  host : target.hostText = root.hostText
  path : root.directoryText <+: target.pathText.toList

instance (target root : Url) : Decidable (target.LiesIn root) :=
  decidable_of_iff (target.scheme = root.scheme ∧ target.hostText = root.hostText ∧
      root.directoryText <+: target.pathText.toList)
    ⟨fun ⟨hscheme, hhost, hpath⟩ => ⟨hscheme, hhost, hpath⟩, fun h => ⟨h.scheme, h.host, h.path⟩⟩

/-- **An import from the root lies in it**, whatever style sheet has it, where what follows the
    slash names no scheme, host or drive and does not go up. -/
theorem importTarget?_liesIn {root : Url} (hroot : root.IsRoot) (hslash : root.TakesSlash)
    {raw : String} {rooted : Text} (hpath : importPath? raw = some ('/' :: rooted))
    (hbelow : UrlParts.StaysBelow rooted) (origin : Url) :
    ∃ target, importTarget? origin (some root) raw = some target ∧ target.LiesIn root := by
  obtain ⟨hfile, hauthority, htext⟩ := hroot.isFile.asDirectory hslash
  have hends : root.asDirectory.pathText.toList.getLast? = some '/' := by
    rw [htext, UrlParts.directoryText]
    split
    · assumption
    · exact List.getLast?_concat
  rw [← String.toList_ofList (l := rooted)] at hbelow
  obtain ⟨u, hu, hunder⟩ := UrlParts.join?_below hfile hends hbelow
  obtain ⟨hs, ha, hp⟩ := hunder.file.ofText
  have htarget : importTarget? origin (some root) raw = some (.ofParts u) := by
    simp only [importTarget?, hpath, Option.bind_eq_bind, Option.bind_some, hu, Option.map_some]
  refine ⟨.ofParts u, htarget, ?_, ?_, ?_⟩
  · exact (hs.trans hunder.file.scheme).trans hroot.isFile.scheme.symm
  · exact UrlParts.hostText_congr ((ha.trans hunder.authority).trans hauthority)
  · show root.directoryText <+: (UrlParts.ofText u.text.toList).path.text.toList
    rw [hp, ← htext]
    exact hunder.path

/-- A root with an address for its host and a query. -/
def addressRoot : Url := .ofParts ⟨"file", some "[::1]", .segments ["My%20Proj"], some "q", none⟩

/-- A style sheet somewhere else. -/
def otherSheet : Url := .ofPath (.ofText "/lib/main.uss")

/-- Colons behind a slash, an encoded backslash, and dots behind a `?` do no harm. -/
theorem importTarget?_addressRoot :
    importPath? " /a/./b:c\\%2E%2E%5cd/e?x#../y " =
        some ('/' :: "a/./b:c\\%2E%2E%5cd/e?x#../y.uss".toList) ∧
      ∃ target, importTarget? otherSheet (some addressRoot) " /a/./b:c\\%2E%2E%5cd/e?x#../y " =
        some target ∧ target.LiesIn addressRoot := by
  have hroot : addressRoot.IsRoot := by
    have hread : Url.parse? "file://[::1]/My%20Proj?q" = some addressRoot := by decide +kernel
    exact .read hread (by decide +kernel)
  have hslash : addressRoot.TakesSlash := .inr (by decide +kernel)
  have hpath : importPath? " /a/./b:c\\%2E%2E%5cd/e?x#../y " =
      some ('/' :: "a/./b:c\\%2E%2E%5cd/e?x#../y.uss".toList) := by decide +kernel
  have hbelow : UrlParts.StaysBelow "a/./b:c\\%2E%2E%5cd/e?x#../y.uss".toList :=
    .plain (by decide +kernel) ⟨by decide +kernel, by decide +kernel, by decide +kernel⟩
  exact ⟨hpath, importTarget?_liesIn hroot hslash hpath hbelow otherSheet⟩

/-- No part of the path of an import stands for the directory above. -/
def hasNoDotDot (raw : String) : Bool :=
  (Text.splitOn '/' (Text.trim raw.toList)).all (!Url.isDotDot ·)

/-- An import leads out of its root, although no part of its path stands for the directory
    above. -/
def LeavesRoot (rootText raw : String) : Prop :=
  ∃ root ∈ Url.parse? rootText, root.scheme = "file" ∧
    (Text.trim raw.toList).head? = some '/' ∧ hasNoDotDot raw = true ∧
    ∃ target ∈ importTarget? otherSheet (some root) raw, ¬ target.LiesIn root

instance (rootText raw : String) : Decidable (LeavesRoot rootText raw) :=
  inferInstanceAs (Decidable (∃ root ∈ Url.parse? rootText, _))

/-- **Imports from the root need not lie in it**: what follows the slash is read as a scheme, from
    the root of the host, as a drive, or with dots that breaks or a backslash hide; and a root with
    a bar or dots behind its drive is not kept as a directory. -/
theorem imports_leave_root :
    LeavesRoot "file:///proj" "/a:b.uss" ∧ LeavesRoot "file:///proj" "/http://h/y.uss" ∧
      LeavesRoot "file:///proj" "//x.uss" ∧ LeavesRoot "file:///proj" "/\\x.uss" ∧
      LeavesRoot "file:///proj" "/D|/x.uss" ∧ LeavesRoot "file:///proj" "/.\t./x.uss" ∧
      LeavesRoot "file:///proj" "/a\\..\\../x.uss" ∧ LeavesRoot "file:///c|" "/x.uss" ∧
      LeavesRoot "file:/c:\t.." "/x.uss" := by
  decide +kernel

end StyleServer
