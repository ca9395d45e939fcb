/-
  What a listing lists.

  A pattern is followed from a directory, name by name, and each place that it leads to has a
  URL.  Read back, this URL leads to the directory and from there along the same names:

  * `decodeUtf8_append_slash`: bytes are read name by name, and so a path whose names are texts
    is a text itself (`WrittenPath.ofText_text`).
  * `Spot.Below`, `Disk.expand_below`: a pattern that has no component for `.` or `..` leads
    down from where it begins, by names of files.
  * `Url.place?`: where a URL leads.  `Url.place?_ofPath`: the URL of a path leads where the path
    does.
  * `Disk.mem_listing`: the URLs of a listing lead below its directory, along names that are not
    excluded.
-/
import StyleServer.Disk.Listing
import StyleServer.Proofs.Url.File

namespace StyleServer

/-! ## Texts between slashes -/

theorem continueUtf8_append_slash {value more low high : Nat} (hlow : 0x80 ≤ low)
    (a b : List UInt8) :
    continueUtf8 value more low high (a ++ WrittenPath.slash :: b) =
      ((continueUtf8 value more low high a).1,
        (continueUtf8 value more low high a).2 ++ WrittenPath.slash :: b) := by
  induction a generalizing value more low high with
  | nil =>
    have hslash : ¬ (low ≤ WrittenPath.slash.toNat ∧ WrittenPath.slash.toNat ≤ high) := by
      have : WrittenPath.slash.toNat = 0x2F := rfl
      omega
    simp [continueUtf8, hslash]
  | cons c a ih =>
    simp only [List.cons_append, continueUtf8]
    split
    · cases more with
      | zero => dsimp only
      | succ more => exact ih (Nat.le_refl _)
    · rfl

theorem Utf8Lead.low_of_of? {b : Nat} {lead : Utf8Lead} (h : Utf8Lead.of? b = some lead) :
    0x80 ≤ lead.low := by
  unfold Utf8Lead.of? at h
  split_ifs at h <;> simp [← Option.some.inj h]

/-- No character goes on across a slash. -/
theorem decodeUtf8_append_slash (a b : List UInt8) :
    decodeUtf8 (a ++ WrittenPath.slash :: b) = decodeUtf8 a ++ '/' :: decodeUtf8 b := by
  induction a using decodeUtf8.induct with
  | case1 =>
    rw [List.nil_append, decodeUtf8, decodeUtf8]
    rfl
  | case2 c a hascii ih =>
    rw [List.cons_append, decodeUtf8, decodeUtf8.eq_def (c :: a)]
    simp only [hascii, if_true, ih, List.cons_append]
  | case3 c a hascii hlead ih =>
    rw [List.cons_append, decodeUtf8, decodeUtf8.eq_def (c :: a)]
    simp only [hascii, if_false, hlead, ih, List.cons_append]
  | case4 c a hascii lead hlead read ih =>
    rw [List.cons_append, decodeUtf8, decodeUtf8.eq_def (c :: a)]
    simp only [hascii, if_false, hlead,
      continueUtf8_append_slash (Utf8Lead.low_of_of? hlead)]
    exact congrArg _ ih

theorem Text.bytes_append_slash (a b : Text) :
    Text.bytes (a ++ '/' :: b) = Text.bytes a ++ WrittenPath.slash :: Text.bytes b := by
  simp only [Text.bytes, List.flatMap_append, List.flatMap_cons]
  rfl

namespace FileName

/-- The name is the UTF-8 form of a text. -/
def IsText (name : FileName) : Prop := Text.bytes (decodeUtf8 name) = name

theorem isText_of_text? {name : FileName} {text : String} (h : name.text? = some text) :
    name.IsText := by
  simp only [text?, Option.ite_none_right_eq_some] at h
  exact h.1

theorem isText_nil : IsText [] := by
  rw [IsText, decodeUtf8]
  rfl

theorem isText_dot : IsText dot := by
  rw [IsText, dot, decodeUtf8, decodeUtf8]
  rfl

theorem isText_dotDot : IsText dotDot := by
  rw [IsText, dotDot, decodeUtf8, decodeUtf8, decodeUtf8]
  rfl

end FileName

/-- Names that lead somewhere are texts. -/
theorem Path.isText_of_follow? {p r : Path} {names : List FileName}
    (h : p.follow? names = some r) : ∀ name ∈ names, name.IsText := by
  induction names generalizing p with
  | nil => simp
  | cons name names ih =>
    rw [follow?] at h
    split_ifs at h with hdot hdotDot
    · exact List.forall_mem_cons.2 ⟨hdot ▸ FileName.isText_dot, ih h⟩
    · exact List.forall_mem_cons.2 ⟨hdotDot ▸ FileName.isText_dotDot, ih h⟩
    · obtain ⟨text, htext, h⟩ := Option.bind_eq_some_iff.1 h
      exact List.forall_mem_cons.2 ⟨FileName.isText_of_text? htext, ih h⟩

namespace WrittenPath

theorem slash_not_mem_parts {bytes : List UInt8} : ∀ name ∈ parts bytes, slash ∉ name := by
  induction bytes with
  | nil => simp [parts]
  | cons b bytes ih =>
    obtain ⟨first, rest, hparts⟩ := List.exists_cons_of_ne_nil (parts_ne_nil bytes)
    rw [hparts, List.forall_mem_cons] at ih
    simp only [parts, hparts]
    split
    · simpa using ih
    · next hb => simpa [Ne.symm hb] using ih

theorem isText_of_parts {bytes : List UInt8} (h : ∀ name ∈ parts bytes, FileName.IsText name) :
    FileName.IsText bytes := by
  by_cases hslash : slash ∈ bytes
  · obtain ⟨a, b, rfl⟩ := List.append_of_mem hslash
    rw [parts_append_slash, List.forall_mem_append] at h
    have ha := isText_of_parts h.1
    have hb := isText_of_parts h.2
    rw [FileName.IsText] at ha hb ⊢
    rw [decodeUtf8_append_slash, Text.bytes_append_slash, ha, hb]
  · rw [parts_of_not_mem hslash] at h
    exact h bytes (List.mem_singleton_self _)
termination_by bytes.length

/-- Where a path leads from the root. -/
def place? (p : WrittenPath) : Option Path := Path.follow? [] p.names

/-- A path that leads somewhere is a text. -/
theorem ofText_text {p : WrittenPath} {top : Path} (h : p.place? = some top) :
    ofText p.text = p := by
  have hparts : ∀ name ∈ parts p.bytes, FileName.IsText name := by
    intro name hname
    by_cases hempty : name = []
    · exact hempty ▸ FileName.isText_nil
    · exact Path.isText_of_follow? h name (List.mem_filter.2 ⟨hname, by simpa using hempty⟩)
  have hbytes : Text.bytes (decodeUtf8 p.bytes) = p.bytes := isText_of_parts hparts
  rw [ofText, text, String.toList_ofList, hbytes]

theorem names_flatMap_append {names : List FileName}
    (h : ∀ name ∈ names, name ≠ [] ∧ slash ∉ name) (a : List UInt8) :
    WrittenPath.names ⟨a ++ names.flatMap (slash :: ·)⟩ = WrittenPath.names ⟨a⟩ ++ names := by
  induction names generalizing a with
  | nil => simp
  | cons name names ih =>
    obtain ⟨⟨hne, hslash⟩, hnames⟩ := List.forall_mem_cons.1 h
    rw [List.flatMap_cons, ← List.append_assoc, ih hnames, names_append_slash,
      names_of_name hne hslash, List.append_assoc, List.singleton_append]

/-- The names of a path along others, from a directory. -/
theorem names_foldl_join {trail : Path} (h : trail.Proper) (p : WrittenPath) :
    (trail.foldl join p).names = p.names ++ trail.nameBytes := by
  induction trail generalizing p with
  | nil => simp [Path.nameBytes]
  | cons name trail ih =>
    obtain ⟨⟨hne, hslash, -, -⟩, htrail⟩ := List.forall_mem_cons.1 h
    have hname : (ofText name).names = [Text.bytes name.toList] := Path.names_of_name hne hslash
    rw [List.foldl_cons, ih htrail, names_join, hname, List.append_assoc]
    rfl

end WrittenPath

/-! ## Places of URLs -/

namespace Path

theorem follow?_append (p : Path) (names names' : List FileName) :
    p.follow? (names ++ names') = (p.follow? names).bind (·.follow? names') := by
  induction names generalizing p with
  | nil => rfl
  | cons name names ih =>
    rw [List.cons_append, follow?, follow?]
    split_ifs
    · exact ih p
    · exact ih p.dropLast
    · cases name.text? with
      | none => rfl
      | some text => exact ih (p ++ [text])

end Path

namespace Url

/-- Where a URL leads. -/
def place? (u : Url) : Option Path := u.filePath?.bind (·.place?)

/-- The names that the segments of names stand for. -/
theorem names_segmentsOf {names : List FileName}
    (h : ∀ name ∈ names, name ≠ [] ∧ WrittenPath.slash ∉ name) :
    WrittenPath.names ⟨((segmentsOf names).map String.ofList).flatMap fun name =>
      WrittenPath.slash :: Percent.decode name.toList⟩ = names := by
  cases names with
  | nil => rfl
  | cons name names =>
    have hsegments : segmentsOf (name :: names) = (name :: names).map segmentOf := rfl
    rw [hsegments, List.map_map, List.flatMap_map]
    simp only [Function.comp_apply, String.toList_ofList, decode_segmentOf]
    exact WrittenPath.names_flatMap_append h []

/-- The path of the URL of names has these names. -/
theorem filePath?_ofNames {names : List FileName}
    (h : ∀ name ∈ names, name ≠ [] ∧ WrittenPath.slash ∉ name) :
    ∃ path, (ofNames names).filePath? = some path ∧ path.names = names := by
  have hnames := names_segmentsOf h
  have hpath : (ofNames names).path = .segments ((segmentsOf names).map String.ofList) := rfl
  have hhost : (ofNames names).hostText = "" := rfl
  obtain ⟨first, rest, heq⟩ := List.exists_cons_of_ne_nil
    (mt List.map_eq_nil_iff.1 (segmentsOf_ne_nil names) : (segmentsOf names).map String.ofList ≠ [])
  rw [heq] at hnames
  simp only [filePath?, hpath, heq, hhost, List.mem_cons, true_or, if_true]
  refine ⟨_, rfl, ?_⟩
  generalize (first :: rest).flatMap _ = bytes at hnames ⊢
  -- The slash behind a drive has no name after it.
  split
  · rw [WrittenPath.names_append_slash, hnames]
    exact List.append_nil _
  · exact hnames

/-- The URL of a path leads where the path does. -/
theorem place?_ofPath (p : WrittenPath) : (ofPath p).place? = p.place? := by
  have hsolid : ∀ name ∈ p.names.filter (· ≠ .dot), name ≠ [] ∧ WrittenPath.slash ∉ name := by
    intro name hname
    have hparts := List.mem_filter.1 (List.mem_of_mem_filter hname)
    exact ⟨by simpa using hparts.2, WrittenPath.slash_not_mem_parts name hparts.1⟩
  obtain ⟨path, hpath, hnames⟩ := filePath?_ofNames hsolid
  rw [place?, ofPath, hpath, Option.bind_some, WrittenPath.place?, hnames,
    Path.follow?_withoutDots, WrittenPath.place?]

end Url

/-! ## Where patterns lead -/

namespace Glob

theorem literal?_eq_some {g : Glob} {text : Text} (h : g.literal? = some text) :
    g = text.map .literal := by
  induction g generalizing text with
  | nil => rw [← Option.some.inj h]; rfl
  | cons token g ih =>
    cases token with
    | literal c =>
      obtain ⟨rest, hrest, rfl⟩ := Option.map_eq_some_iff.1 h
      rw [ih hrest]
      rfl
    | _ => simp [literal?] at h

/-- A component stands for `.` or `..`. -/
def meetsDots (g : Glob) : Bool :=
  g.head? = some (.literal '.') && (g.accepts ['.'] || g.accepts ['.', '.'])

theorem literal?_ne_dots {g : Glob} {text : Text} (hg : g.meetsDots = false)
    (h : g.literal? = some text) : text ≠ ['.'] ∧ text ≠ ['.', '.'] := by
  constructor
  · rintro rfl
    rw [literal?_eq_some h] at hg
    exact absurd hg (by decide)
  · rintro rfl
    rw [literal?_eq_some h] at hg
    exact absurd hg (by decide)

end Glob

/-- The names of all entries are names. -/
def Disk.Proper (d : Disk) : Prop := ∀ entry ∈ d.entries, entry.1.Proper

instance (d : Disk) : Decidable d.Proper := inferInstanceAs (Decidable (∀ entry ∈ _, _))

theorem Disk.Proper.of_find? {d : Disk} (hd : d.Proper) {p : Path} (h : (d.find? p).isSome = true) :
    p.Proper := by
  rw [find?] at h
  split_ifs at h with hp
  · simp [hp, Path.Proper]
  · obtain ⟨e, he⟩ := Option.isSome_iff_exists.1 h
    obtain ⟨before, after, hentries, -⟩ := List.lookup_eq_some_iff.1 he
    exact hd (p, e) (by simp [hentries])

namespace Spot

variable {d : Disk} {s t : Spot}

/-- A spot lies below another one, along names of files. -/
def Below (s t : Spot) : Prop :=
  ∃ names : Path, names.Proper ∧ t.trail = s.trail ++ names ∧ t.place = s.place ++ names

theorem Below.refl (s : Spot) : s.Below s := ⟨[], by simp [Path.Proper], by simp, by simp⟩

theorem Below.trans {r : Spot} (h : r.Below s) (h' : s.Below t) : r.Below t := by
  obtain ⟨names, hproper, htrail, hplace⟩ := h
  obtain ⟨names', hproper', htrail', hplace'⟩ := h'
  refine ⟨names ++ names', List.forall_mem_append.2 ⟨hproper, hproper'⟩, ?_, ?_⟩
  · rw [htrail', htrail, List.append_assoc]
  · rw [hplace', hplace, List.append_assoc]

theorem children_below (hd : d.Proper) (h : t ∈ s.children d) : s.Below t := by
  obtain ⟨name, hname, rfl⟩ := List.mem_map.1 h
  rw [Disk.children, List.mem_mergeSort, List.mem_filterMap] at hname
  obtain ⟨⟨q, e⟩, hentry, hname⟩ := hname
  obtain ⟨-, hlast⟩ := Option.ite_none_right_eq_some.1 hname
  have hproper := hd (q, e) hentry name (List.mem_of_getLast? hlast)
  exact ⟨[name], by simpa [Path.Proper] using hproper, rfl, rfl⟩

theorem descendants_below (hd : d.Proper) (h : t ∈ s.descendants d) : s.Below t := by
  obtain ⟨⟨q, e⟩, hentry, ht⟩ := List.mem_filterMap.1 h
  obtain ⟨-, ht⟩ := Option.ite_none_right_eq_some.1 ht
  obtain rfl := Option.some.inj ht
  refine ⟨q.drop s.place.length, ?_, rfl, rfl⟩
  exact fun name hname => hd (q, e) hentry name (List.mem_of_mem_drop hname)

theorem enter_below (hd : d.Proper) {name : String} (hdot : name ≠ ".") (hdotDot : name ≠ "..")
    (h : s.enter d name = some t) : s.Below t := by
  unfold enter at h
  split at h
  · next hspecial =>
    obtain rfl : name = "" := by simpa [hdot, hdotDot] using hspecial
    obtain ⟨-, ht⟩ := Option.ite_none_right_eq_some.1 h
    rw [if_pos rfl] at ht
    exact Option.some.inj ht ▸ Below.refl s
  · obtain ⟨hthere, ht⟩ := Option.ite_none_right_eq_some.1 h
    have hname := hd.of_find? hthere name (by simp)
    obtain rfl := Option.some.inj ht
    exact ⟨[name], by simpa [Path.Proper] using hname, rfl, rfl⟩

end Spot

namespace Disk

variable {d : Disk} {s t : Spot}

theorem follow_below (hd : d.Proper) {g : Glob} (hg : g.meetsDots = false) (h : t ∈ d.follow g s) :
    s.Below t := by
  unfold follow at h
  split at h
  · next name hname =>
    obtain ⟨hdot, hdotDot⟩ := Glob.literal?_ne_dots hg hname
    refine Spot.enter_below hd ?_ ?_ (Option.mem_toList.1 h)
    · exact fun heq => hdot (String.ofList_injective heq)
    · exact fun heq => hdotDot (String.ofList_injective heq)
  · rcases List.mem_append.1 h with h | h
    · exact Spot.children_below hd (List.mem_of_mem_filter h)
    · -- The component would have to stand for a dot.
      rw [Spot.dots] at h
      split at h
      · next hhead =>
        have hnone : [".", ".."].filter (fun name => g.accepts name.toList) = [] := by
          simpa [Glob.meetsDots, hhead] using hg
        simp [hnone] at h
      · simp at h

/-- A pattern leads down, where none of its components stands for a dot. -/
theorem expand_below (hd : d.Proper) {deep : Bool} {gs : List Glob}
    (hgs : ∀ g ∈ gs, g.meetsDots = false) (h : t ∈ d.expand deep gs s) : s.Below t := by
  induction gs generalizing deep s with
  | nil =>
    cases deep with
    | false => exact List.mem_singleton.1 h ▸ Spot.Below.refl s
    | true => exact Spot.descendants_below hd (List.mem_of_mem_filter h)
  | cons g gs ih =>
    obtain ⟨hg, hgs⟩ := List.forall_mem_cons.1 hgs
    rw [expand] at h
    split_ifs at h
    · exact ih hgs h
    · obtain ⟨r, hr, h⟩ := List.mem_flatMap.1 h
      exact (Spot.descendants_below hd (List.mem_of_mem_filter hr)).trans (ih hgs h)
    · obtain ⟨r, hr, h⟩ := List.mem_flatMap.1 h
      exact (follow_below hd hg hr).trans (ih hgs h)

end Disk

/-! ## What is listed -/

/-- No component of a pattern stands for `.` or `..`. -/
def avoidsDots (pattern : String) : Bool :=
  (globComponents? (pattern.toList.dropWhile (· == '/'))).all fun gs => gs.all (!·.meetsDots)

theorem withoutDots_eq {names : List String} (h : "." ∉ names) : withoutDots names = names := by
  have hdrop : ∀ l : List String, "." ∉ l → l.dropWhile (· = ".") = l := by
    intro l hl
    cases l with
    | nil => rfl
    | cons name l =>
      have hname : name ≠ "." := fun heq => hl (heq ▸ List.mem_cons_self)
      rw [List.dropWhile_cons_of_neg (by simpa using hname)]
  rw [withoutDots, hdrop names h, hdrop names.reverse (by simpa using h), List.reverse_reverse]

/-- The URLs of a listing lead below its directory, along names that are not excluded. -/
theorem Disk.mem_listing {d : Disk} (hd : d.Proper) {root : WrittenPath} {top : Path}
    (hroot : root.place? = some top) {pattern : String} (hpattern : avoidsDots pattern = true)
    {exclude : List String} {files : List Url}
    (hfiles : d.listing? root pattern exclude = some files) {u : Url} (hu : u ∈ files) {p : Path}
    (hp : u.place? = some p) :
    ∃ rest, p = top ++ rest ∧ isExcluded exclude ("/".intercalate rest) = false := by
  obtain ⟨components, hcomponents, hfiles⟩ := Option.bind_eq_some_iff.1 hfiles
  obtain rfl := Option.some.inj hfiles
  obtain ⟨s, hs, rfl⟩ := List.mem_map.1 hu
  obtain ⟨hs, hkept⟩ := List.mem_filter.1 hs
  have hdots : ∀ g ∈ components, g.meetsDots = false := by
    simpa [avoidsDots, hcomponents] using hpattern
  obtain ⟨trail, hproper, htrail⟩ : ∃ trail : Path, trail.Proper ∧ s.trail = trail := by
    split at hs
    · obtain ⟨names, hproper, htrail, -⟩ := expand_below hd hdots hs
      exact ⟨names, hproper, htrail⟩
    · simp at hs
  have htext := WrittenPath.ofText_text hroot
  refine ⟨trail, ?_, ?_⟩
  · rw [Spot.url, htext, htrail, Url.place?_ofPath, WrittenPath.place?,
      WrittenPath.names_foldl_join hproper, Path.follow?_append,
      show Path.follow? [] root.names = some top from hroot, Option.bind_some] at hp
    rw [← List.append_nil trail.nameBytes] at hp
    exact (Option.some.inj (hproper.follow?_nameBytes hp)).symm
  · have hseen : s.seenFrom root = "/".intercalate trail := by
      rw [Spot.seenFrom, if_pos htext.symm, htrail,
        withoutDots_eq fun hmem => (hproper "." hmem).2.2.1 rfl]
    simp only [Bool.and_eq_true, Bool.not_eq_true'] at hkept
    rw [← hseen]
    exact hkept.2

end StyleServer
