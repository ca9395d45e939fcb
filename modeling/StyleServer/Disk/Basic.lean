/-
  The files and directories that the library works on.

  * `Disk`: what stands at each absolute path.  Writing a file makes the
    directories it needs, and these stay when the file is deleted.
  * `Disk.locate`: follows a path name by name; `.` stays and `..` goes up.
  * `Disk.read`: the text of a file.
-/
import StyleServer.Disk.WrittenPath
import StyleServer.Text.Fragment

namespace StyleServer

/-- An absolute path, by the names of its components. -/
abbrev Path := List String

namespace Path

/-- The text of the path. -/
def text (p : Path) : String := "/" ++ "/".intercalate p

/-- The path as written. -/
def written (p : Path) : WrittenPath := .ofText p.text

/-- The components of a path as written, without empty ones. -/
def parts (text : String) : List String :=
  ((Text.splitOn '/' text.toList).filter (!·.isEmpty)).map String.ofList

end Path

/-- What stands at a path.  A file whose bytes are not UTF-8 has no text. -/
inductive Entry where
  | file (text : Option String)
  | directory
deriving DecidableEq

/-- Why a file has no text to read. -/
inductive ReadError where
  | notFound
  | notADirectory
  | isADirectory
  | nameTooLong
  | nulInName
  | notText
deriving DecidableEq

/-- The wording of a failure to read. -/
def ReadError.message : ReadError → String
  | notFound => "No such file or directory (os error 2)"
  | notADirectory => "Not a directory (os error 20)"
  | isADirectory => "Is a directory (os error 21)"
  | nameTooLong => "File name too long (os error 36)"
  | nulInName => "file name contained an unexpected NUL byte"
  | notText => "stream did not contain valid UTF-8"

/-- What stands at each path, the root apart. -/
structure Disk where
  entries : List (Path × Entry)
deriving DecidableEq

namespace Disk

/-- No files. -/
def empty : Disk := ⟨[]⟩

/-- What stands at a path; the root is a directory. -/
def find? (d : Disk) (p : Path) : Option Entry :=
  if p = [] then some .directory else d.entries.lookup p

/-- With an entry in place of what stands at its path. -/
def set (d : Disk) (p : Path) (e : Entry) : Disk :=
  ⟨d.entries.filter (·.1 ≠ p) ++ [(p, e)]⟩

/-- With the directory of a path, where nothing stands yet. -/
def makeDirectory (d : Disk) (p : Path) : Disk :=
  match d.find? p with
  | some _ => d
  | none => d.set p .directory

/-- With the directory of a path and all those above it. -/
def makeDirectories (d : Disk) (p : Path) : Disk :=
  ((List.range (p.length + 1)).map p.take).foldl makeDirectory d

/-- With an entry at a path, and the directories above it. -/
def write (d : Disk) (p : Path) (e : Entry) : Disk := (d.makeDirectories p.dropLast).set p e

/-- The names in a directory, in order. -/
def children (d : Disk) (p : Path) : List String :=
  (d.entries.filterMap fun (q, _) =>
    if q ≠ [] ∧ q.dropLast = p then q.getLast? else none).mergeSort

/-- A directory stands at a path. -/
def isDirectory (d : Disk) (p : Path) : Bool := d.find? p = some .directory

/-- A file stands at a path. -/
def isFile (d : Disk) (p : Path) : Bool :=
  match d.find? p with
  | some (.file _) => true
  | _ => false

/-- Without the file at a path. -/
def delete (d : Disk) (p : Path) : Disk :=
  if d.isFile p then ⟨d.entries.filter (·.1 ≠ p)⟩ else d

/-- The most bytes that a name can have. -/
def longestName : Nat := 255

/-- The most bytes that a path can have as written. -/
def longestPath : Nat := 4095

/-- The path reached from a path by following names.  Nothing has a name that is no
    text. -/
def locate (d : Disk) (p : Path) : List FileName → Except ReadError Path
  | [] => .ok p
  | name :: names =>
    match d.find? p with
    | none => .error .notFound
    | some (.file _) => .error .notADirectory
    | some .directory =>
      if name = .dot then d.locate p names
      else if name = .dotDot then d.locate p.dropLast names
      else if name.length > longestName then .error .nameTooLong
      else match name.text? with
        | some name => d.locate (p ++ [name]) names
        | none => .error .notFound

/-- The path that a path as written leads to, seen from a directory.  A slash at its end
    asks for a directory. -/
def resolve (d : Disk) (directory : Path) (path : WrittenPath) : Except ReadError Path :=
  if path.bytes.contains 0 then .error .nulInName
  else if path.bytes.isEmpty then .error .notFound
  else if path.bytes.length > longestPath then .error .nameTooLong
  else d.locate (if path.isAbsolute then [] else directory)
    (path.names ++ if path.endsInSlash then [.dot] else [])

/-- The text of the file at a path. -/
def read (d : Disk) (p : Path) : Except ReadError String :=
  match d.find? p with
  | none => .error .notFound
  | some .directory => .error .isADirectory
  | some (.file none) => .error .notText
  | some (.file (some text)) => .ok text

end Disk

end StyleServer
