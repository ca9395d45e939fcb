/-
  Loading property files.

  A file is added to a registry as a whole or not at all.  The files of a
  directory whose names end in `.toml` are loaded in the order of their names;
  those that cannot be loaded are passed over and do not count.  A directory
  that is missing has no files, and directories inside it are not entered.
-/
import StyleServer.Disk.Basic
import StyleServer.Property.Builtin
import StyleServer.Property.File

namespace StyleServer

/-- Why properties are not loaded. -/
inductive LoadError where
  | unreadableFile (path : WrittenPath) (cause : ReadError)
  /-- The text is no property file. -/
  | invalidFile (path : WrittenPath)
  | unreadableDirectory (path : WrittenPath) (cause : ReadError)
deriving DecidableEq

/-- The wording of a failure to load, without its cause. -/
def LoadError.message : LoadError → String
  | unreadableFile path _ => "Failed to read property file: " ++ path.text
  | invalidFile path => "Failed to parse property TOML: " ++ path.text
  | unreadableDirectory path _ => "Failed to read property directory: " ++ path.text

/-- The name of a property file: something, and then `.toml`. -/
def isPropertyFileName (name : String) : Bool :=
  name.toList.length > 5 && ".toml".toList.isSuffixOf name.toList

namespace Disk

/-- The property file that a path leads to, seen from `current`. -/
def propertyFile (d : Disk) (current : Path) (path : WrittenPath) :
    Except LoadError PropertyFile :=
  match (d.resolve current path).bind d.read with
  | .error e => .error (.unreadableFile path e)
  | .ok text =>
    match PropertyFile.parse? text with
    | none => .error (.invalidFile path)
    | some file => .ok file

/-- The paths of the property files in a directory, in the order of their names; none when
    nothing stands at its path. -/
def propertyPaths (d : Disk) (current : Path) (directory : WrittenPath) :
    Except LoadError (List WrittenPath) :=
  match d.resolve current directory with
  | .error _ => .ok []
  | .ok p =>
    match d.find? p with
    | none => .ok []
    | some (.file _) => .error (.unreadableDirectory directory .notADirectory)
    | some .directory => .ok (((d.children p).filter isPropertyFileName).map directory.join)

end Disk

namespace Registry

/-- With the property file that a path leads to. -/
def loadFile (r : Registry) (d : Disk) (current : Path) (path : WrittenPath) :
    Except LoadError Registry :=
  (d.propertyFile current path).map r.addFile

/-- With the property files that paths lead to, and how many of them could be loaded. -/
def loadFiles (d : Disk) (current : Path) (r : Registry) : List WrittenPath → Registry × Nat
  | [] => (r, 0)
  | path :: paths =>
    match r.loadFile d current path with
    | .error _ => loadFiles d current r paths
    | .ok r =>
      let (r, loaded) := loadFiles d current r paths
      (r, loaded + 1)

/-- With the property files of a directory, and how many of them could be loaded. -/
def loadDirectory (r : Registry) (d : Disk) (current : Path) (directory : WrittenPath) :
    Except LoadError (Registry × Nat) :=
  (d.propertyPaths current directory).map (loadFiles d current r)

/-- The built-in properties with those of directories, given by their texts and seen
    from `current`. -/
def withDirectories (d : Disk) (current : Path) (directories : List String) : Registry :=
  directories.foldl
    (fun r directory =>
      match r.loadDirectory d current (.ofText directory) with
      | .ok (r, _) => r
      | .error _ => r)
    builtin

end Registry

end StyleServer
