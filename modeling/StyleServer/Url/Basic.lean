/-
  Uniform resource locators.

  A URL is kept by its components, each in its normal form; `UrlParts.text` puts
  them together.  A path is either a list of segments, or opaque text that has no
  structure of its own.

  * `UrlParts.ofText`: finds the components of a text by the marks between them.
    Nothing of the text is lost (`UrlParts.text_ofText`).
  * `Url`: the components of a text, so that a URL is known by its text
    (`Url.eq_of_text`).  URLs are ordered by their texts.
-/
import StyleServer.Url.Path

namespace StyleServer

/-- The path of a URL. -/
inductive UrlPath where
  | segments (names : List String)
  /-- Text without segments. -/
  | plain (text : String)
deriving DecidableEq

/-- The components of a URL. -/
structure UrlParts where
  scheme : String
  /-- The part that names a host, with a user before it and a number behind it. -/
  authority : Option String
  path : UrlPath
  query : Option String := none
  fragment : Option String := none
deriving DecidableEq

/-! ## Components as written -/

namespace UrlPath

/-- The path as written. -/
def text : UrlPath → String
  | segments names => String.join (names.map ("/" ++ ·))
  | plain text => text

/-- The path begins with an empty segment, and goes on. -/
def startsEmpty : UrlPath → Bool
  | segments ("" :: _ :: _) => true
  | _ => false

end UrlPath

namespace UrlParts

/-- What stands between the scheme and the path.  Where a path could be taken for an
    authority, `/.` keeps them apart. -/
def authorityText (u : UrlParts) : String :=
  match u.authority with
  | some a => "//" ++ a
  | none => if u.path.startsEmpty then "/." else ""

/-- The URL as written. -/
def text (u : UrlParts) : String :=
  u.scheme ++ ":" ++ u.authorityText ++ u.path.text ++
    (u.query.elim "" ("?" ++ ·)) ++ (u.fragment.elim "" ("#" ++ ·))

/-- The path is opaque, so that nothing is relative to the URL. -/
def isPlain (u : UrlParts) : Bool :=
  match u.path with
  | .plain _ => true
  | .segments _ => false

/-- The path as written. -/
def pathText (u : UrlParts) : String := u.path.text

/-- The segments of the path; an opaque one has none. -/
def segments (u : UrlParts) : List String :=
  match u.path with
  | .segments names => names
  | .plain _ => []

/-- The host as written, between a user and a number; it is empty when there is none. -/
def hostText (u : UrlParts) : String :=
  let place := ((u.authority.getD "").toList.reverse.takeWhile (· != '@')).reverse
  match place.reverse.dropWhile Char.isDigit with
  | ':' :: host => String.ofList host.reverse
  | _ => String.ofList place

end UrlParts

/-! ## Components of a text -/

/-- The path of a text, behind an authority or not. -/
def UrlPath.ofText (rooted : Bool) : Text → UrlPath
  | [] => if rooted then .segments [] else .plain ""
  | '/' :: names => .segments ((Url.divide .other names).map String.ofList)
  | text => .plain (String.ofList text)

namespace UrlParts

/-- A text before and behind a mark. -/
def cutMark (mark : Char) (text : Text) : Text × Option String :=
  match text.dropWhile (· != mark) with
  | [] => (text, none)
  | _ :: rest => (text.takeWhile (· != mark), some (String.ofList rest))

/-- The authority and the path of a text without anything else. -/
def placeOf : Text → Option String × UrlPath
  | '/' :: '/' :: rest =>
    (some (String.ofList (rest.takeWhile (· != '/'))), .ofText true (rest.dropWhile (· != '/')))
  | '/' :: '.' :: '/' :: '/' :: rest => (none, .ofText false ('/' :: '/' :: rest))
  | text => (none, .ofText false text)

/-- The components of a text. -/
def ofText (text : Text) : UrlParts :=
  let scheme := text.takeWhile (· != ':')
  let cut := cutMark '#' (text.drop (scheme.length + 1))
  let inner := cutMark '?' cut.1
  let place := placeOf inner.1
  ⟨String.ofList scheme, place.1, place.2, inner.2, cut.2⟩

end UrlParts

/-! ## Nothing is lost -/

theorem Url.divide_ne_nil (kind : SchemeKind) (text : Text) : divide kind text ≠ [] := by
  cases text with
  | nil => simp [divide]
  | cons c text =>
    simp only [divide]
    split
    · simp
    · split <;> simp

theorem Url.flatMap_divide (text : Text) :
    (divide .other text).flatMap ('/' :: ·) = '/' :: text := by
  induction text with
  | nil => rfl
  | cons c text ih =>
    simp only [divide]
    by_cases hc : c = '/'
    · simp [SchemeKind.divides, SchemeKind.isSpecial, hc, ih]
    · obtain ⟨part, parts, hparts⟩ := List.exists_cons_of_ne_nil (divide_ne_nil .other text)
      rw [hparts, List.flatMap_cons, List.cons_append, List.cons.injEq] at ih
      simp [SchemeKind.divides, SchemeKind.isSpecial, hc, hparts, ih.2]

namespace UrlPath

theorem text_segments (names : List Text) :
    (segments (names.map String.ofList)).text.toList = names.flatMap ('/' :: ·) := by
  simp [text, List.flatMap_map]

theorem text_ofText (rooted : Bool) (chars : Text) : (ofText rooted chars).text.toList = chars := by
  unfold ofText
  split
  · cases rooted <;> rfl
  · rw [text_segments, Url.flatMap_divide]
  · exact String.toList_ofList

/-- A path that begins with an empty segment begins with two slashes. -/
theorem startsEmpty_ofText {rooted : Bool} {chars : Text}
    (h : (ofText rooted chars).startsEmpty = true) : ∃ rest, chars = '/' :: '/' :: rest := by
  unfold ofText at h
  split at h
  · cases rooted <;> simp [startsEmpty] at h
  · next names =>
    cases names with
    | nil => simp [Url.divide, startsEmpty] at h
    | cons c rest =>
      by_cases hc : c = '/'
      · exact ⟨rest, by rw [hc]⟩
      · obtain ⟨part, parts, hparts⟩ := List.exists_cons_of_ne_nil (Url.divide_ne_nil .other rest)
        have hother : SchemeKind.other.divides c = false := by
          simp [SchemeKind.divides, SchemeKind.isSpecial, hc]
        simp [Url.divide, hother, hparts, startsEmpty] at h
  · simp [startsEmpty] at h

theorem startsEmpty_slashes (rooted : Bool) (rest : Text) :
    (ofText rooted ('/' :: '/' :: rest)).startsEmpty = true := by
  obtain ⟨part, parts, hparts⟩ := List.exists_cons_of_ne_nil (Url.divide_ne_nil .other rest)
  simp [ofText, Url.divide, SchemeKind.divides, hparts, startsEmpty]

end UrlPath

namespace UrlParts

theorem cutMark_eq (mark : Char) (text : Text) :
    (cutMark mark text).1 ++
      ((cutMark mark text).2.elim "" (String.singleton mark ++ ·)).toList = text := by
  have htext : text.takeWhile (· != mark) ++ text.dropWhile (· != mark) = text :=
    List.takeWhile_append_dropWhile
  unfold cutMark
  split
  · simp
  · next c rest hdrop =>
    have hmark : c = mark := by
      have hhead := List.head?_dropWhile_not (· != mark) text
      rw [hdrop] at hhead
      simpa using hhead
    rw [hdrop, hmark] at htext
    simpa using htext

theorem takeWhile_mark {mark : Char} {text : Text} (h : mark ∈ text) :
    text.takeWhile (· != mark) ++ mark :: text.drop ((text.takeWhile (· != mark)).length + 1) =
      text := by
  induction text with
  | nil => simp at h
  | cons c text ih =>
    by_cases hc : c = mark
    · simp [hc]
    · have hmem : mark ∈ text := (List.mem_cons.1 h).resolve_left (Ne.symm hc)
      simp [hc, ih hmem]

theorem authorityText_placeOf {u : UrlParts} {place : Text}
    (hauthority : u.authority = (placeOf place).1) (hpath : u.path = (placeOf place).2) :
    u.authorityText.toList ++ u.path.text.toList = place := by
  unfold placeOf at hauthority hpath
  split at hauthority
  · simp only at hpath
    simp [authorityText, hauthority, hpath, UrlPath.text_ofText]
  · simp only at hpath
    simp [authorityText, hauthority, hpath, UrlPath.text_ofText, UrlPath.startsEmpty_slashes]
  · next hslashes _ =>
    simp only at hpath
    have hstarts : (UrlPath.ofText false place).startsEmpty = false := by
      rw [Bool.eq_false_iff]
      intro hempty
      obtain ⟨rest, hrest⟩ := UrlPath.startsEmpty_ofText hempty
      exact hslashes rest hrest
    simp [authorityText, hauthority, hpath, hstarts, UrlPath.text_ofText]

/-- **The components of a text make up the text**, where it has a scheme. -/
theorem text_ofText {chars : Text} (h : ':' ∈ chars) : (ofText chars).text.toList = chars := by
  have hchars := takeWhile_mark h
  generalize hrest : chars.drop ((chars.takeWhile (· != ':')).length + 1) = rest at hchars
  have hplace : (ofText chars).authorityText.toList ++ (ofText chars).path.text.toList =
      (cutMark '?' (cutMark '#' rest).1).1 := by
    rw [← hrest]
    exact authorityText_placeOf rfl rfl
  have hquery : (cutMark '?' (cutMark '#' rest).1).1 ++
      ((ofText chars).query.elim "" ("?" ++ ·)).toList = (cutMark '#' rest).1 := by
    rw [← hrest]
    exact cutMark_eq '?' _
  have hfragment : (cutMark '#' rest).1 ++
      ((ofText chars).fragment.elim "" ("#" ++ ·)).toList = rest := by
    rw [← hrest]
    exact cutMark_eq '#' _
  have hscheme : (ofText chars).scheme.toList = chars.takeWhile (· != ':') := String.toList_ofList
  calc (ofText chars).text.toList
      = (ofText chars).scheme.toList ++ ':' :: ((((ofText chars).authorityText.toList ++
          (ofText chars).path.text.toList) ++ ((ofText chars).query.elim "" ("?" ++ ·)).toList) ++
          ((ofText chars).fragment.elim "" ("#" ++ ·)).toList) := by simp [text]
    _ = chars := by rw [hplace, hquery, hfragment, hscheme, hchars]

end UrlParts

/-! ## URLs -/

/-- A URL: the components of its text. -/
structure Url extends UrlParts where
  ofText_text : UrlParts.ofText toUrlParts.text.toList = toUrlParts
deriving DecidableEq

namespace Url

/-- **A URL is known by its text.** -/
theorem eq_of_text {u v : Url} (h : u.text = v.text) : u = v := by
  have hparts : u.toUrlParts = v.toUrlParts := by
    rw [← u.ofText_text, ← v.ofText_text, h]
  cases u
  cases v
  cases hparts
  rfl

theorem text_ofText_text (u : UrlParts) :
    (UrlParts.ofText u.text.toList).text.toList = u.text.toList :=
  UrlParts.text_ofText (by simp [UrlParts.text])

/-- The URL that components write. -/
def ofParts (u : UrlParts) : Url where
  toUrlParts := .ofText u.text.toList
  ofText_text := by rw [text_ofText_text]

@[simp] theorem text_ofParts (u : UrlParts) : (ofParts u).text = u.text :=
  String.toList_injective (text_ofText_text u)

end Url

end StyleServer
