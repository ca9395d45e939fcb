/-
  Reading the paths of URLs.

  A path is read segment by segment behind a text that is already there.  Dot
  segments are resolved on the way.  A drive, which is a letter and a colon, is
  not left by them; a file's path writes a drive at its front with a colon, and
  has no empty segments there.

  * `PathDraft`: a path as far as it is read.
  * `PathDraft.read`: reads a path to its end.
  * `PathDraft.segments`: the segments of a path.
-/
import StyleServer.Text.Fragment
import StyleServer.Url.Percent
import StyleServer.Url.Scheme

namespace StyleServer

namespace Url

/-! ## Drives and dots -/

/-- A letter and a colon or bar: the name of a drive. -/
def isDrive : Text → Bool
  | [c, d] => c.isAlpha && (d == ':' || d == '|')
  | _ => false

/-- A letter and a colon. -/
def isNormalDrive : Text → Bool
  | [c, ':'] => c.isAlpha
  | _ => false

/-- The text begins with a drive that is a whole segment. -/
def startsWithDrive (text : Text) : Bool :=
  isDrive (text.take 2) && (text.drop 2).head?.all fun c => ['/', '\\', '?', '#'].contains c

/-- The segment stands for the directory itself. -/
def isDot (segment : Text) : Bool := segment.map Char.toLower ∈ [['.'], ['%', '2', 'e']]

/-- The segment stands for the directory above. -/
def isDotDot (segment : Text) : Bool :=
  segment.map Char.toLower ∈
    [['.', '.'], ['.', '%', '2', 'e'], ['%', '2', 'e', '.'], ['%', '2', 'e', '%', '2', 'e']]

/-- The parts of a text between its dividers. -/
def divide (kind : SchemeKind) : Text → List Text
  | [] => [[]]
  | c :: cs =>
    let rest := divide kind cs
    if kind.divides c then [] :: rest
    else match rest with
      | [] => [[c]]
      | part :: parts => (c :: part) :: parts

end Url

/-- A path as far as it is read. -/
structure PathDraft where
  /-- What is settled, its last character first. -/
  settled : Text
  /-- The segment behind it. -/
  segment : Text := []
  /-- The path of a file has been given a drive. -/
  hasDrive : Bool := false

namespace PathDraft

/-! ## What is settled

These functions take a path with its last character first. -/

/-- Without the last segment, up to the slash before it.  A drive of a file stays. -/
def dropName (kind : SchemeKind) (settled : Text) : Text :=
  let name := (settled.takeWhile (· != '/')).reverse
  if kind = .file ∧ Url.isNormalDrive name then settled else settled.dropWhile (· != '/')

/-- Without the slash at the end.  That of the root, and that behind a drive, stays. -/
def dropSlash (settled : Text) : Text :=
  match settled with
  | '/' :: above =>
    let name := (above.takeWhile (· != '/')).reverse
    if !above.contains '/' || Url.startsWithDrive name then settled else above
  | _ => settled

/-- With a slash at the end. -/
def withSlash (settled : Text) : Text :=
  if settled.head? = some '/' then settled else '/' :: settled

/-! ## Reading -/

/-- A path that begins with a text. -/
def ofText (text : Text) : PathDraft := { settled := text.reverse }

/-- All of the path is a slash and a drive. -/
def isDriveAlone (d : PathDraft) : Bool :=
  match (d.segment.reverse ++ d.settled).take 4 with
  | [':', c, _] => c.isAlpha
  | _ => false

/-- With a slash behind a drive that is all of the path.  The segment then begins one
    character later. -/
def partDrive (d : PathDraft) : PathDraft :=
  match d.isDriveAlone, d.segment ++ ['/'] with
  | true, c :: segment => { d with settled := c :: d.settled, segment := segment }
  | _, _ => d

/-- Adds characters that stand together.  A file's drive is parted from them. -/
def addRun (kind : SchemeKind) (d : PathDraft) (run : Text) : PathDraft :=
  let d := if kind = .file then d.partDrive else d
  { d with segment := d.segment ++ Percent.encode Percent.pathSet run }

/-- Settles the segment, which a slash follows or not. -/
def closeSegment (kind : SchemeKind) (d : PathDraft) (slash : Bool) : PathDraft :=
  let ended (settled : Text) : Text := if slash then '/' :: settled else settled
  if Url.isDotDot d.segment then
    let above := dropName kind (dropSlash d.settled)
    { d with settled := if slash then withSlash above else above, segment := [] }
  else if Url.isDot d.segment then { d with settled := withSlash d.settled, segment := [] }
  else match kind, d.settled, d.segment with
    | .file, [root], [c, bar] =>
      if Url.isDrive [c, bar] then ⟨ended [':', c, root], [], true⟩
      else ⟨ended [bar, c, root], [], d.hasDrive⟩
    | _, _, _ => ⟨ended (d.segment.reverse ++ d.settled), [], d.hasDrive⟩

/-- Reads the parts of a path between its dividers. -/
def readParts (kind : SchemeKind) : PathDraft → List Text → PathDraft
  | d, [] => d
  | d, part :: parts =>
    let d := (Url.runs part).foldl (addRun kind) d
    readParts kind (d.closeSegment kind (!parts.isEmpty)) parts

/-- Reads a path behind a text that is already there. -/
def read (kind : SchemeKind) (start text : Text) : PathDraft :=
  readParts kind (ofText start) (Url.divide kind text)

/-- The segments of a path. -/
def segments (kind : SchemeKind) (d : PathDraft) : List String :=
  let text := d.settled.reverse
  match if kind = .file then '/' :: text.dropWhile (· == '/') else text with
  | [] => []
  | _ :: names => (Text.splitOn '/' names).map String.ofList

end PathDraft

/-- The segments of a path that is read behind a text. -/
def Url.pathFrom (kind : SchemeKind) (start text : Text) : List String :=
  (PathDraft.read kind start text).segments kind

end StyleServer
