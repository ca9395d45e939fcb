/-
  URLs of files that are read.

  A URL of a file has a host, which may be empty, and the segments of a path.  None of them holds
  a mark that parts the components of a URL.

  * `Host.special?_inner`: a host of a special scheme holds no marks.
  * `UrlParts.IsFile.ofText`: the URL of a file keeps its scheme, its host and its path when it
    is written, whatever stands behind them.
  * `Url.isFile_of_parse?`: every URL of a file that is read is such.
  * `Url.isFile_ofDirectory`: so is that of every directory.
-/
import Mathlib.Data.List.TakeWhile
import Mathlib.Data.Nat.Digits.Lemmas
import StyleServer.Proofs.Url.File
import StyleServer.Proofs.Url.Path

namespace StyleServer

open Url (isInner)

/-! ## Hosts -/

namespace Host

/-- The digits of a number are no marks. -/
theorem isInner_digit {n : Nat} (h : n < 16) : isInner n.digitChar = true := by
  revert n
  decide

theorem isInner_of_mem_toDigits {base n : Nat} (hone : 1 < base) (hbase : base ≤ 16) :
    ∀ c ∈ Nat.toDigits base n, isInner c = true := by
  induction n using Nat.strong_induction_on with
  | h n ih =>
    intro c hc
    have hdigit : n % base < 16 := (Nat.mod_lt n (by omega)).trans_le hbase
    rw [Nat.toDigits_eq_if hone] at hc
    split at hc
    · next hn =>
      rw [List.mem_singleton.1 hc]
      exact isInner_digit (by omega)
    · next hn =>
      rcases List.mem_append.1 hc with hc | hc
      · exact ih (n / base) (Nat.div_lt_self (by omega) hone) c hc
      · rw [List.mem_singleton.1 hc]
        exact isInner_digit hdigit

/-- What is written between separators is made of them and of the parts. -/
theorem isInner_intercalate {separator : String} {parts : List String}
    (hseparator : ∀ c ∈ separator.toList, isInner c = true)
    (hparts : ∀ part ∈ parts, ∀ c ∈ part.toList, isInner c = true) :
    ∀ c ∈ (separator.intercalate parts).toList, isInner c = true := by
  rw [String.toList_intercalate]
  induction parts with
  | nil => simp
  | cons part parts ih =>
    obtain ⟨hpart, hparts⟩ := List.forall_mem_cons.1 hparts
    cases parts with
    | nil => simpa using hpart
    | cons next parts =>
      rw [List.map_cons, List.map_cons, List.intercalate_cons_cons]
      exact List.forall_mem_append.2 ⟨List.forall_mem_append.2 ⟨hpart, hseparator⟩, ih hparts⟩

theorem isInner_dotted (n : Nat) : ∀ c ∈ dotted n, isInner c = true := by
  refine isInner_intercalate (by simp [isInner]) fun part hpart c hc => ?_
  obtain ⟨byte, -, rfl⟩ := List.mem_map.1 hpart
  have hdigit : c ∈ Nat.toDigits 10 byte := by rwa [← Nat.toList_repr]
  exact isInner_of_mem_toDigits (by decide) (by decide) c hdigit

theorem isInner_writeGroups (groups : List Nat) :
    ∀ c ∈ (writeGroups groups).toList, isInner c = true := by
  refine isInner_intercalate (by simp [isInner]) fun part hpart c hc => ?_
  obtain ⟨group, -, rfl⟩ := List.mem_map.1 hpart
  rw [String.toList_ofList] at hc
  exact isInner_of_mem_toDigits (by decide) (by decide) c hc

theorem isInner_writeAddress6 (groups : List Nat) :
    ∀ c ∈ writeAddress6 groups, isInner c = true := by
  have hbracket : ∀ c ∈ "[".toList, isInner c = true := by simp [isInner]
  have hcolons : ∀ c ∈ "::".toList, isInner c = true := by simp [isInner]
  have hend : ∀ c ∈ "]".toList, isInner c = true := by simp [isInner]
  unfold writeAddress6
  dsimp only
  simp only [String.toList_append, List.forall_mem_append]
  refine ⟨⟨hbracket, ?_⟩, hend⟩
  split
  · exact isInner_writeGroups groups
  · simp only [String.toList_append, List.forall_mem_append]
    exact ⟨⟨isInner_writeGroups _, hcolons⟩, isInner_writeGroups _⟩

theorem special?_inner {host text : Text} (h : special? host = some text) :
    ∀ c ∈ text, isInner c = true := by
  unfold special? at h
  split at h
  · unfold bracketed? at h
    split at h
    · split at h
      · obtain ⟨groups, -, rfl⟩ := Option.map_eq_some_iff.1 h
        exact isInner_writeAddress6 groups
      · cases h
    · cases h
  · obtain ⟨domain, -, h⟩ := Option.bind_eq_some_iff.1 h
    split at h
    · cases h
    · next hdomain =>
      split at h
      · obtain ⟨numbers, -, h⟩ := Option.bind_eq_some_iff.1 h
        obtain ⟨last, -, h⟩ := Option.bind_eq_some_iff.1 h
        dsimp only at h
        split at h
        · rw [← Option.some.inj h]
          exact isInner_dotted _
        · cases h
      · -- None of the marks is a character of a domain.
        rw [← Option.some.inj h]
        simp only [Bool.or_eq_true, not_or, List.any_eq_true, not_exists, not_and] at hdomain
        intro c hc
        have hallowed := hdomain.2 c hc
        simp only [isInner, Bool.and_eq_true, bne_iff_ne]
        refine ⟨⟨?_, ?_⟩, ?_⟩ <;> rintro rfl <;> exact hallowed (by decide)

end Host

/-! ## Places -/

namespace UrlParts

/-- The URL of a file: it has a host, which may be empty, and segments, and both hold no marks. -/
structure IsFile (u : UrlParts) : Prop where
  scheme : u.scheme = "file"
  authority : ∃ host : Text, u.authority = some (String.ofList host) ∧ ∀ c ∈ host, isInner c = true
  path : ∃ names, Url.FileNames names ∧ u.path = .segments (names.map String.ofList)

theorem IsFile.exists_names {u : UrlParts} (h : u.IsFile) : ∃ names, Url.FileNames names ∧
    u.path = .segments (names.map String.ofList) ∧
    u.pathText.toList = names.flatMap ('/' :: ·) := by
  obtain ⟨names, hnames, hpath⟩ := h.path
  refine ⟨names, hnames, hpath, ?_⟩
  rw [UrlParts.pathText, hpath, UrlPath.text_segments]

theorem cutMark_fst (mark : Char) (text : Text) :
    (cutMark mark text).1 = text.takeWhile (· != mark) := by
  unfold cutMark
  split
  · next hdrop =>
    have htext := List.takeWhile_append_dropWhile (p := (· != mark)) (l := text)
    rw [hdrop, List.append_nil] at htext
    exact htext.symm
  · rfl

/-- Characters that are no marks are before every mark. -/
theorem cutMark_inner {place rest : Text} (hplace : ∀ c ∈ place, c ≠ '?' ∧ c ≠ '#')
    (hrest : ∀ c ∈ rest.head?, c = '?' ∨ c = '#') :
    (cutMark '?' (cutMark '#' (place ++ rest)).1).1 = place := by
  have hhash : ∀ c ∈ place, (c != '#') = true := fun c hc => bne_iff_ne.2 (hplace c hc).2
  have hquestion : ∀ c ∈ place, (c != '?') = true := fun c hc => bne_iff_ne.2 (hplace c hc).1
  have hstop : (rest.takeWhile (· != '#')).takeWhile (· != '?') = [] := by
    cases rest with
    | nil => rfl
    | cons c rest => rcases hrest c rfl with rfl | rfl <;> simp
  rw [cutMark_fst, cutMark_fst, List.takeWhile_append_of_pos hhash,
    List.takeWhile_append_of_pos hquestion, hstop, List.append_nil]

/-- What stands behind a path begins with a mark. -/
theorem head?_behind (u : UrlParts) : ∀ c ∈ ((u.query.elim "" ("?" ++ ·)).toList ++
    (u.fragment.elim "" ("#" ++ ·)).toList).head?, c = '?' ∨ c = '#' := by
  cases u.query <;> cases u.fragment <;> simp

theorem placeOf_file {host : Text} {names : List Text} (hhost : ∀ c ∈ host, isInner c = true)
    (hnames : Url.FileNames names) :
    placeOf ('/' :: '/' :: (host ++ names.flatMap ('/' :: ·))) =
      (some (String.ofList host), .segments (names.map String.ofList)) := by
  obtain ⟨name, names, rfl⟩ := List.exists_cons_of_ne_nil hnames.ne_nil
  have hslash : ∀ c ∈ host, (c != '/') = true := fun c hc => by
    have := hhost c hc
    simp only [isInner, Bool.and_eq_true] at this
    exact this.1.1
  have hinner : ∀ n ∈ name :: names, ∀ c ∈ n, isInner c = true := fun n hn c hc =>
    isInner_of_isPathChar (hnames.chars n hn c hc)
  rw [placeOf, List.takeWhile_append_of_pos hslash, List.dropWhile_append_of_pos hslash,
    List.flatMap_cons, List.cons_append, List.takeWhile_cons, List.dropWhile_cons]
  simp only [bne_self_eq_false, Bool.false_eq_true, if_false, List.append_nil, UrlPath.ofText,
    Url.divide_names hinner]

/-- **The URL of a file keeps its scheme, its host and its path** when it is written. -/
theorem IsFile.ofText {u : UrlParts} (h : u.IsFile) :
    (UrlParts.ofText u.text.toList).scheme = u.scheme ∧
      (UrlParts.ofText u.text.toList).authority = u.authority ∧
      (UrlParts.ofText u.text.toList).path = u.path := by
  obtain ⟨host, hauthority, hhost⟩ := h.authority
  obtain ⟨names, hnames, hpath⟩ := h.path
  have hmarks : ∀ c ∈ '/' :: '/' :: (host ++ names.flatMap ('/' :: ·)), c ≠ '?' ∧ c ≠ '#' := by
    have hinner : ∀ c, isInner c = true → c ≠ '?' ∧ c ≠ '#' := by
      intro c hc
      simp only [isInner, Bool.and_eq_true, bne_iff_ne] at hc
      exact ⟨hc.1.2, hc.2⟩
    intro c hc
    simp only [List.mem_cons, List.mem_append, List.mem_flatMap] at hc
    rcases hc with rfl | rfl | hc | ⟨name, hname, rfl | hc⟩
    · decide
    · decide
    · exact hinner c (hhost c hc)
    · decide
    · exact hinner c (isInner_of_isPathChar (hnames.chars name hname c hc))
  have htext : u.text.toList = "file".toList ++ ':' ::
      (('/' :: '/' :: (host ++ names.flatMap ('/' :: ·))) ++
        ((u.query.elim "" ("?" ++ ·)).toList ++ (u.fragment.elim "" ("#" ++ ·)).toList)) := by
    have hsegments := UrlPath.text_segments names
    simp [text, authorityText, h.scheme, hauthority, hpath, hsegments]
  have hscheme : u.text.toList.takeWhile (· != ':') = "file".toList := by
    rw [htext]
    rfl
  have hrest : u.text.toList.drop ("file".toList.length + 1) =
      ('/' :: '/' :: (host ++ names.flatMap ('/' :: ·))) ++
        ((u.query.elim "" ("?" ++ ·)).toList ++ (u.fragment.elim "" ("#" ++ ·)).toList) := by
    rw [htext]
    rfl
  have hplace := cutMark_inner hmarks (head?_behind u)
  refine ⟨?_, ?_, ?_⟩
  · rw [h.scheme, UrlParts.ofText]
    dsimp only
    rw [hscheme]
    rfl
  · rw [hauthority, UrlParts.ofText]
    dsimp only
    rw [hscheme, hrest, hplace, placeOf_file hhost hnames]
  · rw [hpath, UrlParts.ofText]
    dsimp only
    rw [hscheme, hrest, hplace, placeOf_file hhost hnames]

/-! ## Reading -/

variable {u v : UrlParts} {text rest : Text}

/-- What stands behind the path does not matter. -/
theorem IsFile.congr (h : u.IsFile) (hscheme : v.scheme = u.scheme)
    (hauthority : v.authority = u.authority) (hpath : v.path = u.path) : v.IsFile where
  scheme := hscheme.trans h.scheme
  authority := hauthority ▸ h.authority
  path := hpath ▸ h.path

theorem IsFile.withSuffix (h : u.IsFile) (rest : Text) : (u.withSuffix rest).IsFile :=
  h.congr rfl rfl rfl

theorem isFile_atHost {host : Text} (hhost : ∀ c ∈ host, isInner c = true) {d : PathDraft}
    (hd : d.Clean) : (atHost (String.ofList host) (d.segments .file)).IsFile where
  scheme := rfl
  authority := ⟨host, rfl, hhost⟩
  path := ⟨_, hd.fileNames, by rw [PathDraft.segments_file]; rfl⟩

/-- A path that is read from the root, or from nothing, is one of a file. -/
theorem isFile_ofSegments {start : Text} (hstart : ∀ c ∈ start, c = '/') (text : Text) :
    (ofSegments (Url.pathFrom .file start text)).IsFile :=
  isFile_atHost (List.forall_mem_nil _) (PathDraft.clean_read (fun c hc => .inl (hstart c hc)) text)

theorem isFile_fileWithHost? (h : fileWithHost? text = some u) : u.IsFile := by
  have hroot : ∀ c ∈ ['/'], c = '/' := by simp
  have hplaced : ∀ host : Text, (∀ c ∈ host, isInner c = true) → ∀ front path rest : Text,
      (if host.isEmpty ∨ host = "localhost".toList then
          some ((ofSegments (Url.pathFrom .file ['/'] front)).withSuffix rest)
        else
          let path := PathDraft.read .file ['/'] path
          some ((atHost (if path.hasDrive then "" else String.ofList host)
            (path.segments .file)).withSuffix rest)) = some u → u.IsFile := by
    intro host hhost front path rest h
    split at h
    · rw [← Option.some.inj h]
      exact (isFile_ofSegments hroot _).withSuffix _
    · rw [← Option.some.inj h]
      have hclean := PathDraft.clean_read (fun c hc => .inl (hroot c hc)) path
      refine IsFile.withSuffix ?_ _
      split
      · exact isFile_atHost (List.forall_mem_nil _) hclean
      · exact isFile_atHost hhost hclean
  unfold fileWithHost? at h
  dsimp only at h
  split at h
  · rw [← Option.some.inj h]
    exact (isFile_ofSegments hroot _).withSuffix _
  · split at h
    · obtain ⟨host, hhost, h⟩ := Option.bind_eq_some_iff.1 h
      exact hplaced host (Option.some.inj hhost ▸ List.forall_mem_nil _) _ _ _ h
    · obtain ⟨host, hhost, h⟩ := Option.bind_eq_some_iff.1 h
      exact hplaced host (Host.special?_inner hhost) _ _ _ h

theorem isFile_file? (h : file? none text = some u) : u.IsFile := by
  have hroot : ∀ c ∈ ['/'], c = '/' := by simp
  have hnothing : ∀ c ∈ ([] : Text), c = '/' := by simp
  unfold file? at h
  dsimp only at h
  split at h
  · split at h
    · split at h
      · split at h
        · exact isFile_fileWithHost? h
        · rw [← Option.some.inj h]
          exact (isFile_ofSegments hnothing _).withSuffix _
      · rw [← Option.some.inj h]
        exact (isFile_ofSegments hnothing _).withSuffix _
    · rw [← Option.some.inj h]
      exact (isFile_ofSegments hroot _).withSuffix _
  · cases ‹none = some _›
  · rw [← Option.some.inj h]
    exact (isFile_ofSegments hroot []).withSuffix _

/-- A scheme is made of letters, digits and three marks. -/
theorem colon_not_mem_scheme {scheme : String} (h : Url.scheme? text = some (scheme, rest)) :
    ':' ∉ scheme.toList := by
  have hinside : ∀ c ∈ Url.squeeze (text.takeWhile fun c => Url.isSchemeChar c || Url.isBreak c),
      Url.isSchemeChar c = true := by
    intro c hc
    obtain ⟨hmem, hbreak⟩ := Url.mem_squeeze hc
    simpa [hbreak] using List.mem_takeWhile_imp hmem
  unfold Url.scheme? at h
  dsimp only at h
  split at h
  · next c name _ hname _ =>
    rw [hname] at hinside
    split at h
    · obtain ⟨rfl, -⟩ := Prod.mk.inj (Option.some.inj h)
      rw [String.toList_ofList]
      intro hmem
      obtain ⟨d, hd, hlower⟩ := List.mem_map.1 hmem
      rcases Url.toLower_eq hlower with rfl | ⟨hnat, hlarge, -⟩
      · exact absurd (hinside _ hd) (by decide)
      · have : ':'.toNat = 58 := rfl
        omega
    · cases h
  · cases h

theorem scheme_withAuthority? {scheme : String} (h : withAuthority? scheme text = some u) :
    u.scheme = scheme := by
  obtain ⟨place, -, h⟩ := Option.bind_eq_some_iff.1 h
  rw [← Option.some.inj h]

theorem scheme_other? {scheme : String} (h : other? scheme text = some u) :
    u.scheme = scheme := by
  unfold other? at h
  split at h
  · exact scheme_withAuthority? h
  · rw [← Option.some.inj h]
    rfl

end UrlParts

namespace Url

open UrlParts (IsFile)

theorem scheme_ofParts {u : UrlParts} (h : ':' ∉ u.scheme.toList) :
    (ofParts u).scheme = u.scheme := by
  have htext : u.text.toList.takeWhile (· != ':') = u.scheme.toList := by
    have hscheme : ∀ c ∈ u.scheme.toList, (c != ':') = true := fun c hc =>
      bne_iff_ne.2 fun heq => h (heq ▸ hc)
    simp only [UrlParts.text, String.toList_append, List.append_assoc]
    rw [List.takeWhile_append_of_pos hscheme]
    simp
  show String.ofList (u.text.toList.takeWhile (· != ':')) = u.scheme
  rw [htext, String.ofList_toList]

/-- **The URL of a file that is read** has a host and segments. -/
theorem isFile_of_parse? {text : String} {root : Url} (h : parse? text = some root)
    (hscheme : root.scheme = "file") : root.IsFile := by
  obtain ⟨u, hu, rfl⟩ := Option.map_eq_some_iff.1 h
  obtain ⟨⟨scheme, rest⟩, hfront, hu⟩ := Option.bind_eq_some_iff.1 hu
  have hcolon := UrlParts.colon_not_mem_scheme hfront
  -- The scheme of other kinds is not that of files, and it is kept.
  have hother : u.scheme = scheme → SchemeKind.of scheme = .file := by
    intro heq
    rw [scheme_ofParts (heq ▸ hcolon), heq] at hscheme
    rw [hscheme]
    rfl
  unfold UrlParts.behindScheme? at hu
  dsimp only at hu
  split at hu
  · have hfile := UrlParts.isFile_file? hu
    obtain ⟨hs, ha, hp⟩ := hfile.ofText
    exact hfile.congr hs ha hp
  · next hkind =>
    have := hother (UrlParts.scheme_withAuthority? hu)
    rw [hkind] at this
    cases this
  · next hkind =>
    have := hother (UrlParts.scheme_other? hu)
    rw [hkind] at this
    cases this

theorem isPathChar_of_mem_segmentOf {name : FileName} :
    ∀ c ∈ segmentOf name, isPathChar c = true := by
  intro c hc
  obtain ⟨b, -, hc⟩ := List.mem_flatMap.1 hc
  rw [Percent.encodeByte] at hc
  split at hc
  · exact isPathChar_byte b c hc
  · next hplain =>
    rw [List.mem_singleton.1 hc]
    simp only [Percent.fileNameSet, Bool.or_eq_true, List.contains_iff_mem, List.mem_append,
      List.mem_cons, not_or] at hplain
    simp [isPathChar, hplain]

/-- The URL of a directory is that of a file. -/
theorem isFile_ofDirectory (p : WrittenPath) : (ofDirectory p).IsFile where
  scheme := rfl
  authority := ⟨[], rfl, List.forall_mem_nil _⟩
  path := by
    have hnames : ∀ names : List FileName,
        segmentsOf (names ++ [[]]) = (names ++ [[]]).map segmentOf := by
      intro names
      cases names <;> rfl
    refine ⟨_, ⟨segmentsOf_ne_nil (p.names.filter (· ≠ .dot) ++ [[]]), ?_, ?_⟩, rfl⟩
    · intro segment hsegment
      rw [hnames] at hsegment
      obtain ⟨name, -, rfl⟩ := List.mem_map.1 hsegment
      exact isPathChar_of_mem_segmentOf
    · intro hfirst
      rw [hnames] at hfirst ⊢
      cases hinner : p.names.filter (· ≠ .dot) with
      | nil => rfl
      | cons name names =>
        -- The names of a path are not empty.
        have hmem : name ∈ p.names := (List.mem_filter.1 (hinner ▸ List.mem_cons_self)).1
        rw [hinner] at hfirst
        have hempty : segmentOf name = [] := Option.some.inj hfirst
        have hname : [] = name := by rw [← decode_segmentOf name, hempty]; rfl
        exact absurd (hname ▸ hmem) p.nil_not_mem_names

end Url

end StyleServer
