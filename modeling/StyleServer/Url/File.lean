/-
  URLs and paths of files.

  A name of a file becomes a segment, which holds none of the marks that part the
  components of a URL.  So the URL of any names is one (`ofText_ofSegments`).
-/
import StyleServer.Disk.Basic
import StyleServer.Url.Parse

namespace StyleServer

namespace UrlParts

/-- As the URL of a directory, so that what is relative to it lies inside. -/
def asDirectory (u : UrlParts) : UrlParts :=
  let text := u.pathText.toList
  if text.getLast? = some '/' then u
  else match u.path with
    | .plain "" => { u with path := .plain "%2F" }
    | .plain text => { u with path := .plain (text ++ "/") }
    | .segments _ =>
      let kind := SchemeKind.of u.scheme
      let text := text ++ ['/']
      let path := if u.hostText.isEmpty then Url.pathFrom kind [] text
        else Url.pathFrom kind ['/'] (text.drop 1)
      { u with path := .segments path }

end UrlParts

namespace Url

/-- The path that a URL without a host names. -/
def filePath? (u : Url) : Option WrittenPath :=
  match u.path with
  | .plain _ | .segments [] => none
  | .segments names =>
    if u.hostText ∈ ["", "localhost"] then
      let bytes := names.flatMap fun name => WrittenPath.slash :: Percent.decode name.toList
      let atDrive := bytes.length > 2 && isDrive (decodeUtf8 (bytes.drop (bytes.length - 2)))
      some ⟨if atDrive then bytes ++ [WrittenPath.slash] else bytes⟩
    else none

/-! ## Names as segments -/

/-- A name of a file as a segment. -/
def segmentOf (name : FileName) : Text := name.flatMap (Percent.encodeByte Percent.fileNameSet)

/-- The segments of names from the root; the root itself has an empty one. -/
def segmentsOf : List FileName → List Text
  | [] => [[]]
  | names => names.map segmentOf

theorem segmentsOf_ne_nil (names : List FileName) : segmentsOf names ≠ [] := by
  cases names with
  | nil => simp [segmentsOf]
  | cons => simp [segmentsOf]

theorem mem_encodeByte {set : Percent.EncodeSet} {b : UInt8} {c : Char}
    (h : c ∈ Percent.encodeByte set b) :
    c = '%' ∨ (∃ n < 16, c = Percent.writeDigit n) ∨ c ∉ set := by
  simp only [Percent.encodeByte] at h
  split at h
  · simp only [Percent.byte, List.mem_cons, List.not_mem_nil, or_false] at h
    have hb := b.toNat_lt
    rcases h with h | h | h
    · exact .inl h
    · exact .inr (.inl ⟨_, by omega, h⟩)
    · exact .inr (.inl ⟨_, by omega, h⟩)
  · next hset =>
    rw [List.mem_singleton.1 h]
    simp only [Bool.or_eq_true, List.contains_iff_mem, not_or] at hset
    exact .inr (.inr hset.2)

/-- A character that stands for itself in a URL's path. -/
def isInner (c : Char) : Bool := c != '/' && c != '?' && c != '#'

theorem other_divides_inner {c : Char} (h : isInner c = true) :
    SchemeKind.other.divides c = false := by
  simp only [isInner, Bool.and_eq_true, bne_iff_ne] at h
  simp [SchemeKind.divides, SchemeKind.isSpecial, h.1.1]

theorem segmentOf_isInner {name : FileName} {c : Char} (h : c ∈ segmentOf name) :
    isInner c = true := by
  obtain ⟨b, -, hc⟩ := List.mem_flatMap.1 h
  have hdigit : ∀ n < 16, isInner (Percent.writeDigit n) = true := by decide
  rcases mem_encodeByte hc with rfl | ⟨n, hn, rfl⟩ | hset
  · decide
  · exact hdigit n hn
  · simp only [isInner, Bool.and_eq_true, bne_iff_ne]
    refine ⟨⟨?_, ?_⟩, ?_⟩ <;> rintro rfl <;> exact hset (by decide)

theorem segmentsOf_isInner {names : List FileName} :
    ∀ s ∈ segmentsOf names, ∀ c ∈ s, isInner c = true := by
  intro s hs c hc
  cases names with
  | nil =>
    rw [List.mem_singleton.1 hs] at hc
    exact absurd hc (by simp)
  | cons name names =>
    obtain ⟨n, -, rfl⟩ := List.mem_map.1 hs
    exact segmentOf_isInner hc

/-! ## Segments of a text -/

theorem divide_inner {name : Text} (h : ∀ c ∈ name, isInner c = true) :
    divide .other name = [name] := by
  induction name with
  | nil => rfl
  | cons c name ih =>
    have hc : SchemeKind.other.divides c = false := other_divides_inner (h c (by simp))
    simp [divide, hc, ih fun d hd => h d (by simp [hd])]

theorem divide_inner_slash {name : Text} (h : ∀ c ∈ name, isInner c = true) (rest : Text) :
    divide .other (name ++ '/' :: rest) = name :: divide .other rest := by
  induction name with
  | nil => rfl
  | cons c name ih =>
    have hc : SchemeKind.other.divides c = false := other_divides_inner (h c (by simp))
    simp [divide, hc, ih fun d hd => h d (by simp [hd])]

theorem divide_names {name : Text} {names : List Text}
    (h : ∀ n ∈ name :: names, ∀ c ∈ n, isInner c = true) :
    divide .other (name ++ names.flatMap ('/' :: ·)) = name :: names := by
  induction names generalizing name with
  | nil => simpa using divide_inner (h name (by simp))
  | cons next names ih =>
    rw [List.flatMap_cons, List.cons_append, divide_inner_slash (h name (by simp)),
      ih fun n hn => h n (List.mem_cons_of_mem _ hn)]

theorem text_ofSegments (names : List Text) :
    (UrlParts.ofSegments (names.map String.ofList)).text.toList =
      "file:".toList ++ '/' :: '/' :: names.flatMap ('/' :: ·) := by
  have hpath := UrlPath.text_segments names
  simp [UrlParts.text, UrlParts.ofSegments, UrlParts.atHost, UrlParts.authorityText, hpath]

theorem cutMark_of_not_mem {mark : Char} {text : Text} (h : mark ∉ text) :
    UrlParts.cutMark mark text = (text, none) := by
  have hdrop : text.dropWhile (· != mark) = [] := by
    induction text with
    | nil => rfl
    | cons c text ih =>
      simp only [List.mem_cons, not_or] at h
      have hc : (c != mark) = true := bne_iff_ne.2 (Ne.symm h.1)
      rw [List.dropWhile_cons, if_pos hc, ih h.2]
  simp only [UrlParts.cutMark, hdrop]

/-- **The URL of segments has these segments**, where they hold no mark. -/
theorem ofText_ofSegments {names : List Text} (hne : names ≠ [])
    (h : ∀ n ∈ names, ∀ c ∈ n, isInner c = true) :
    UrlParts.ofText (UrlParts.ofSegments (names.map String.ofList)).text.toList =
      .ofSegments (names.map String.ofList) := by
  obtain ⟨name, names, rfl⟩ := List.exists_cons_of_ne_nil hne
  have hmark : ∀ mark, isInner mark = false → mark ≠ '/' →
      mark ∉ '/' :: '/' :: (name :: names).flatMap ('/' :: ·) := by
    intro mark hinner hslash hmem
    simp only [List.mem_cons, List.mem_flatMap, hslash, false_or] at hmem
    obtain ⟨n, hn, hmem⟩ := hmem
    rw [h n (by simpa using hn) mark hmem] at hinner
    exact absurd hinner (by simp)
  have hscheme : ∀ rest : Text,
      ("file:".toList ++ rest).takeWhile (· != ':') = "file".toList := fun rest => by
    simp [List.takeWhile]
  have hdrop : ∀ rest : Text,
      ("file:".toList ++ rest).drop ("file".toList.length + 1) = rest := fun rest => by simp
  simp only [text_ofSegments, UrlParts.ofText, hscheme, hdrop,
    cutMark_of_not_mem (hmark '#' rfl (by decide)), cutMark_of_not_mem (hmark '?' rfl (by decide))]
  have hauthority : ((name :: names).flatMap ('/' :: ·)).takeWhile (· != '/') = [] := by
    simp
  have hpath : ((name :: names).flatMap ('/' :: ·)).dropWhile (· != '/') =
      '/' :: (name ++ names.flatMap ('/' :: ·)) := by
    simp
  simp only [UrlParts.placeOf, hauthority, hpath, UrlPath.ofText, divide_names h]
  rfl

/-! ## Files -/

/-- The URL of the file that names lead to from the root. -/
def ofNames (names : List FileName) : Url where
  toUrlParts := .ofSegments ((segmentsOf names).map String.ofList)
  ofText_text := ofText_ofSegments (segmentsOf_ne_nil names) segmentsOf_isInner

/-- The URL of a file. -/
def ofPath (p : WrittenPath) : Url := ofNames (p.names.filter (· ≠ .dot))

/-- The URL of a directory, which ends with a slash. -/
def ofDirectory (p : WrittenPath) : Url := ofNames (p.names.filter (· ≠ .dot) ++ [[]])

end Url

end StyleServer
