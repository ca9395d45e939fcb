/-
  Listing the files that match a pattern, below a directory.

  The pattern is taken component by component: a component of nothing but
  characters is a name, which only has to be there; `**` stands for all
  directories below; any other is compared with the names of a directory, so
  that `*` stays within a component.  `.` and `..` are matched only by what
  begins with a dot.  Directories are listed like files; a slash at the end of
  the pattern asks for directories only, and so does a final `**`.
-/
import StyleServer.Disk.Basic
import StyleServer.Glob.Basic
import StyleServer.Url.File

namespace StyleServer

/-- A place on the disk, and how the pattern has led there. -/
structure Spot where
  /-- The names followed from the directory of the listing. -/
  trail : List String
  place : Path
deriving DecidableEq

namespace Spot

/-- One name further. -/
def below (s : Spot) (name : String) : Spot := ⟨s.trail ++ [name], s.place ++ [name]⟩

/-- What stands in the directory of a spot. -/
def children (d : Disk) (s : Spot) : List Spot := (d.children s.place).map s.below

/-- What stands anywhere below a spot. -/
def descendants (d : Disk) (s : Spot) : List Spot :=
  d.entries.filterMap fun (q, _) =>
    if s.place.isPrefixOf q ∧ q ≠ s.place then
      let names := q.drop s.place.length
      some ⟨s.trail ++ names, s.place ++ names⟩
    else none

/-- Follows a name that is there. -/
def enter (d : Disk) (s : Spot) (name : String) : Option Spot :=
  if name ∈ ["", ".", ".."] then
    if d.isDirectory s.place then
      some (if name = "" then s
        else if name = "." then ⟨s.trail ++ ["."], s.place⟩
        else ⟨s.trail ++ [".."], s.place.dropLast⟩)
    else none
  else if (d.find? (s.place ++ [name])).isSome then some (s.below name)
  else none

/-- The last name of a spot matches a component. -/
def named (g : Glob) (s : Spot) : Bool :=
  match s.place.getLast? with
  | some name => g.accepts name.toList
  | none => false

/-- The directory itself and the one above it, where a component that begins with a dot
    matches them. -/
def dots (d : Disk) (g : Glob) (s : Spot) : List Spot :=
  if g.head? = some (.literal '.') then
    (([".", ".."].filter fun name => g.accepts name.toList).filterMap (s.enter d))
  else []

end Spot

/-- The spots that a component which is not `**` leads to. -/
def Disk.follow (d : Disk) (g : Glob) (s : Spot) : List Spot :=
  match g.literal? with
  | some name => (s.enter d (String.ofList name)).toList
  | none => (s.children d).filter (·.named g) ++ s.dots d g

/-- The spots that components of a pattern lead to; `deep` says that `**` stands before
    them. -/
def Disk.expand (d : Disk) : Bool → List Glob → Spot → List Spot
  | false, [], s => [s]
  | true, [], s => (s.descendants d).filter fun t => d.isDirectory t.place
  | deep, g :: rest, s =>
    if g = [.anyDepth] then d.expand true rest s
    else if deep then ((s.descendants d).filter (·.named g)).flatMap (d.expand false rest)
    else (d.follow g s).flatMap (d.expand false rest)

/-- The components of a pattern; `none` when it is malformed, as a whole or in one of
    them. -/
def globComponents? (pattern : Text) : Option (List Glob) := do
  let _ ← Glob.parse? pattern
  let parts := Text.splitOn '/' pattern
  let parts := if parts.getLast? = some [] then parts.dropLast else parts
  parts.mapM Glob.parse?

/-- Names without `.` on either side. -/
def withoutDots (names : List String) : List String :=
  ((names.dropWhile (· = ".")).reverse.dropWhile (· = ".")).reverse

/-- A path is left out by a pattern, which malformed ones never do. -/
def isExcluded (exclude : List String) (path : String) : Bool :=
  exclude.any fun pattern => globMatches pattern path.toList

/-- The path of a spot as seen from a directory.  The paths of a listing are texts, and so none
    of them lies below a directory whose own path is none. -/
def Spot.seenFrom (root : WrittenPath) (s : Spot) : String :=
  if root = .ofText root.text then "/".intercalate (withoutDots s.trail)
  else Path.text (Path.parts root.text ++ s.trail)

/-- The URL of a spot below a directory. -/
def Spot.url (root : WrittenPath) (s : Spot) : Url := .ofPath (s.trail.foldl .join root)

/-- The directory at a path from the root, name by name. -/
def Disk.enter? (d : Disk) (root : WrittenPath) : Option Spot :=
  if root.isAbsolute then
    (Text.splitOn '/' (root.text.toList.drop 1)).foldlM
      (fun s name => s.enter d (String.ofList name)) ⟨[], []⟩
  else none

/-- The files and directories below a directory that match a pattern and are not
    excluded; `none` when the pattern is malformed. -/
def Disk.listing? (d : Disk) (root : WrittenPath) (pattern : String) (exclude : List String) :
    Option (List Url) := do
  let pattern := pattern.toList.dropWhile (· == '/')
  let components ← globComponents? pattern
  let directories := pattern.getLast?.all (· == '/')
  let spots := match d.enter? root with
    | some top => d.expand false components ⟨[], top.place⟩
    | none => []
  let kept := spots.filter fun s =>
    (!directories || d.isDirectory s.place) && !isExcluded exclude (s.seenFrom root)
  return kept.map (·.url (.ofText root.text))

end StyleServer
