/-
  Reading URLs.

  * `Url.parse?`: reads a text that has a scheme.
  * `Url.join?`: reads a text relative to a URL.
-/
import StyleServer.Url.Basic
import StyleServer.Url.Host

namespace StyleServer

namespace UrlParts

open Url

/-! ## Behind a path -/

/-- A text up to a `?` or `#`, and the text from there on. -/
def upToSuffix (text : Text) : Text × Text :=
  let inside (c : Char) : Bool := c != '?' && c != '#'
  (text.takeWhile inside, text.dropWhile inside)

/-- The query and the fragment of what follows a path. -/
def suffix (kind : SchemeKind) (text : Text) : Option String × Option String :=
  let fragment (text : Text) : Option String :=
    match text with
    | [] => none
    | _ :: rest => some (String.ofList (Percent.encode Percent.fragmentSet rest))
  match text with
  | '?' :: rest =>
    let set := if kind.isSpecial then Percent.specialQuerySet else Percent.querySet
    (some (String.ofList (Percent.encode set (rest.takeWhile (· != '#')))),
      fragment (rest.dropWhile (· != '#')))
  | _ => (none, fragment text)

/-! ## Authorities -/

/-- The user of an authority with the `@` behind it, and the rest. -/
def userInfo? (kind : SchemeKind) (text : Text) : Option (String × Text) :=
  let inside := text.takeWhile fun c => !(c == '/' || c == '?' || c == '#' || kind.divides c)
  let rest := text.drop inside.length
  if inside.contains '@' then
    let host := (inside.reverse.takeWhile (· != '@')).reverse
    let user := inside.take (inside.length - host.length - 1)
    if user.isEmpty then
      if host.isEmpty ∧ !rest.isEmpty then none else some ("", host ++ rest)
    else
      let name := Percent.encode Percent.userSet (user.takeWhile (· != ':'))
      let word := match user.dropWhile (· != ':') with
        | [] | [_] => []
        | _ :: word => ':' :: Percent.encode Percent.userSet word
      some (if (name ++ word).isEmpty then "" else String.ofList (name ++ word ++ ['@']), host ++ rest)
  else some ("", text)

/-- A host up to its colon or the end of the authority, and the rest. -/
def splitHost (kind : SchemeKind) : Bool → Text → Text × Text
  | _, [] => ([], [])
  | inBrackets, c :: cs =>
    if (c == ':' && !inBrackets) || c == '?' || c == '#' || kind.divides c then ([], c :: cs)
    else
      let (host, rest) := splitHost kind (if c == '[' then true else if c == ']' then false
        else inBrackets) cs
      (c :: host, rest)

/-- The number that follows a host behind a colon, and the rest.  The one that the scheme
    implies is left out. -/
def portNumber? (scheme : String) (text : Text) : Option (Option Nat × Text) :=
  match text with
  | ':' :: rest =>
    let digits := rest.takeWhile Char.isDigit
    let after := rest.dropWhile Char.isDigit
    let number := digits.foldl (fun n c => n * 10 + (c.toNat - 0x30)) 0
    if number > 65535 ∨ !(after.head?.all fun c => ['/', '\\', '?', '#'].contains c) then none
    else some (if digits.isEmpty ∨ some number = defaultPortNumber? scheme then none else some number,
      after)
  | _ => some (none, text)

/-- The authority that follows two slashes, and the rest. -/
def authority? (scheme : String) (text : Text) : Option (String × Text) := do
  let kind := SchemeKind.of scheme
  let (user, rest) ← userInfo? kind text
  let (host, rest) := splitHost kind false rest
  let host ← if kind.isSpecial then Host.special? host else Host.other? host
  if host.isEmpty ∧ (user ≠ "" ∨ rest.head? = some ':') then none
  let (number, rest) ← portNumber? scheme rest
  let number := number.elim "" fun number => ":" ++ toString number
  return (user ++ String.ofList host ++ number, rest)

/-- The path that follows an authority, which may be missing unless the scheme is
    special. -/
def rootedPath (kind : SchemeKind) (text : Text) : List String :=
  match text with
  | [] => if kind.isSpecial then [""] else []
  | c :: rest => pathFrom kind ['/'] (if kind.divides c then rest else text)

/-- The URL of a scheme whose authority follows. -/
def withAuthority? (scheme : String) (text : Text) : Option UrlParts := do
  let kind := SchemeKind.of scheme
  let (authority, rest) ← authority? scheme text
  let (path, rest) := upToSuffix rest
  let (query, fragment) := suffix kind rest
  return ⟨scheme, some authority, .segments (rootedPath kind path), query, fragment⟩

/-- With the query and the fragment that follow its path. -/
def withSuffix (u : UrlParts) (rest : Text) : UrlParts :=
  let (query, fragment) := suffix (SchemeKind.of u.scheme) (squeeze rest)
  { u with query := query, fragment := fragment }

/-- With another fragment, given with its mark. -/
def withFragment (u : UrlParts) (text : Text) : UrlParts :=
  { u with fragment := (suffix .other text).2 }

/-- Reads what follows a path that a base already has. -/
def onBase (u : UrlParts) (text : Text) : UrlParts :=
  match text with
  | [] => { u with fragment := none }
  | '#' :: _ => u.withFragment text
  | _ => withSuffix u text

/-- The path up to its last segment.  A drive of a file is its own directory. -/
def directory (u : UrlParts) : Text :=
  (PathDraft.dropName (SchemeKind.of u.scheme) u.pathText.toList.reverse).reverse

/-! ## Files -/

/-- The URL of a file at a host. -/
def atHost (host : String) (segments : List String) : UrlParts :=
  ⟨"file", some host, .segments segments, none, none⟩

/-- The URL of a file without a host. -/
def ofSegments (segments : List String) : UrlParts := atHost "" segments

/-- The file whose host follows two slashes.  A drive is no host, `localhost` is as none,
    and a path that has been given a drive has none. -/
def fileWithHost? (text : Text) : Option UrlParts := do
  let (front, rest) := upToSuffix text
  let before := front.takeWhile (!SchemeKind.file.divides ·)
  let name := squeeze before
  if isDrive name then return withSuffix (ofSegments (pathFrom .file ['/'] front)) rest
  let host ← if name.isEmpty then some [] else Host.special? name
  if host.isEmpty ∨ host = "localhost".toList then
    return withSuffix (ofSegments (pathFrom .file ['/'] (front.drop before.length))) rest
  else
    let path := PathDraft.read .file ['/'] (front.drop (before.length + 1))
    let host := if path.hasDrive then "" else String.ofList host
    return withSuffix (atHost host (path.segments .file)) rest

/-- The file at a path from the root, of which `after` follows the first slash.  It keeps
    the drive of the base, or its host. -/
def fileFromRoot (base : Option UrlParts) (path after : Text) : UrlParts :=
  match base.filter fun _ => !startsWithDrive (squeeze after) with
  | none => ofSegments (pathFrom .file [] path)
  | some b =>
    match b.path with
    | .segments (first :: _) =>
      if isNormalDrive first.toList then ofSegments (pathFrom .file ('/' :: first.toList) path)
      else { b with path := .segments (pathFrom .file [] path) }
    | _ => ofSegments (pathFrom .file [] path)

/-- Reads the text of a file's URL behind its scheme, or one relative to a file. -/
def file? (base : Option UrlParts) (text : Text) : Option UrlParts :=
  let (front, rest) := upToSuffix text
  match next? front, base with
  | some (c, after), _ =>
    if SchemeKind.file.divides c then
      match next? after with
      | some (d, _) =>
        if SchemeKind.file.divides d then
          fileWithHost? (((next? text).bind fun (_, text) => next? text).elim [] (·.2))
        else some (withSuffix (fileFromRoot base front after) rest)
      | none => some (withSuffix (fileFromRoot base front []) rest)
    else match base.filter fun _ => !startsWithDrive (squeeze front) with
      | some b =>
        some (withSuffix { b with path := .segments (pathFrom .file b.directory front) } rest)
      | none => some (withSuffix (ofSegments (pathFrom .file ['/'] front)) rest)
  | none, some b => some (b.onBase (squeeze rest))
  | none, none => some (withSuffix (ofSegments [""]) rest)

/-! ## Other schemes -/

/-- Reads a text relative to a URL that is no file. -/
def relative? (base : UrlParts) (text : Text) : Option UrlParts :=
  let kind := SchemeKind.of base.scheme
  let isSlash (c : Char) : Bool := c == '/' || c == '\\'
  let (front, rest) := upToSuffix text
  match front with
  | [] => some (base.onBase rest)
  | c :: after =>
    if isSlash c then
      match text with
      | '/' :: '/' :: authority => withAuthority? base.scheme authority
      | _ =>
        if after.head?.any isSlash then withAuthority? base.scheme (text.dropWhile isSlash)
        else some (withSuffix { base with path := .segments (pathFrom kind ['/'] after) } rest)
    else
      let start := if base.directory.isEmpty then ['/'] else base.directory
      some (withSuffix { base with path := .segments (pathFrom kind start front) } rest)

/-- Reads the text of a URL behind a scheme that is not special. -/
def other? (scheme : String) (text : Text) : Option UrlParts :=
  match text with
  | '/' :: '/' :: authority => withAuthority? scheme authority
  | _ =>
    let (front, rest) := upToSuffix text
    let path := match front with
      | '/' :: after => UrlPath.segments (pathFrom .other ['/'] after)
      | _ => .plain (String.ofList (Percent.encode [] front))
    some (withSuffix ⟨scheme, none, path, none, none⟩ rest)

/-- Reads the text of a URL behind its scheme. -/
def behindScheme? (base : Option UrlParts) (scheme : String) (text : Text) : Option UrlParts :=
  match SchemeKind.of scheme with
  | .file => file? (base.filter (·.scheme = "file")) text
  | .special =>
    let text := squeeze text
    let slashes := text.takeWhile fun c => c == '/' || c == '\\'
    match base.filter (·.scheme = scheme) with
    | some b =>
      if slashes.length < 2 then relative? b text
      else withAuthority? scheme (text.drop slashes.length)
    | none => withAuthority? scheme (text.drop slashes.length)
  | .other => other? scheme (squeeze text)

/-- Reads the components of a URL. -/
def parse? (text : String) : Option UrlParts := do
  let (scheme, rest) ← scheme? (trimControls text.toList)
  behindScheme? none scheme rest

/-- Reads a text relative to a URL of which the components are given. -/
def join? (base : UrlParts) (text : String) : Option UrlParts :=
  let text := trimControls text.toList
  match scheme? text with
  | some (scheme, rest) => behindScheme? (some base) scheme rest
  | none =>
    if (squeeze text).head? = some '#' then some (base.withFragment (squeeze text))
    else if base.isPlain then none
    else if base.scheme = "file" then file? (some base) text
    else relative? base (squeeze text)

end UrlParts

namespace Url

/-- Reads a URL. -/
def parse? (text : String) : Option Url := (UrlParts.parse? text).map ofParts

/-- Reads a text relative to a URL. -/
def join? (base : Url) (text : String) : Option Url := (base.toUrlParts.join? text).map ofParts

end Url

end StyleServer
