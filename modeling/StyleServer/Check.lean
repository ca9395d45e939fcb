/-
  Checking style sheets from the command line.

  Every file is checked by itself; but a variable that another file of the list
  declares is not reported as undefined.
-/
import StyleServer.Config.Arguments
import StyleServer.Diagnostic.Document
import StyleServer.Property.Builtin
import StyleServer.Search.Documents
import StyleServer.Search.Find
import StyleServer.Url.File

namespace StyleServer

/-- The command line. -/
def checkCommand : CommandForm where
  flags := ["no-properties"]
  textOptions := ["log-level"]
  pathOptions := []
  takesFiles := true

/-- A file to check, by its path as given. -/
structure CheckedFile where
  path : String
  text : String
deriving DecidableEq

/-- What is wrong with a file. -/
structure CheckResult where
  path : String
  diagnostics : List Diagnostic
deriving DecidableEq

/-- How a run of the command ends. -/
structure CheckOutcome where
  exitCode : Nat
  stdout : String
  stderr : String
deriving DecidableEq

/-- The URL of a path as given, seen from a directory. -/
def pathUrl (current : Path) (path : String) : Url :=
  .ofPath (if path.toList.head? = some '/' then .ofText path else current.written.join path)

namespace Check

/-- The files by their URLs; of two with the same, the later one. -/
def documents (current : Path) (files : List CheckedFile) : Documents :=
  files.foldl (fun d file => d.insert (pathUrl current file.path) file.text) .empty

/-- The reference to a variable that a diagnostic reports as undefined. -/
def undefined? (s : Sheet) (d : Diagnostic) : Option VariableRef :=
  match d.issue with
  | .undefinedVariable _ => (s.source.offset? d.range.start).bind s.refAt?
  | _ => none

/-- Another file declares the variable that a diagnostic reports as undefined. -/
def declaredElsewhere (docs : Documents) (u : Url) (s : Sheet) (d : Diagnostic) : Bool :=
  match undefined? s d with
  | some ref => (docs.provider.findVariable ref.name u sheetPattern none ()).found.isSome
  | none => false

/-- Checks one file among others. -/
def file (docs : Documents) (current : Path) (knowledge : Option Registry) (f : CheckedFile) :
    CheckResult :=
  let s := Sheet.parse f.text
  ⟨f.path, (s.validate knowledge).filter fun d =>
    !declaredElsewhere docs (pathUrl current f.path) s d⟩

/-- Checks files. -/
def files (current : Path) (knowledge : Option Registry) (fs : List CheckedFile) :
    List CheckResult :=
  fs.map (file (documents current fs) current knowledge)

/-! ## The report -/

/-- The word for a severity. -/
def severityWord : Severity → String
  | .error => "error"
  | .warning => "warning"

/-- The line for a diagnostic; lines and columns are counted from one. -/
def line (path : String) (d : Diagnostic) : String :=
  path ++ ":" ++ toString (d.range.start.line + 1) ++ ":" ++
    toString (d.range.start.character + 1) ++ ": " ++ severityWord d.severity ++ ": " ++
    d.issue.message ++ "\n"

/-- The report of results: it fails when there is an error. -/
def report (results : List CheckResult) : CheckOutcome :=
  let all := results.flatMap (·.diagnostics)
  let errors := all.countP Diagnostic.isError
  let warnings := all.countP (!·.isError)
  { exitCode := if errors > 0 then 1 else 0
    stdout := String.join (results.flatMap fun r => r.diagnostics.map (line r.path))
    stderr := toString results.length ++ " file(s) checked: " ++ toString errors ++
      " error(s), " ++ toString warnings ++ " warning(s)\n" }

/-- The outcome when a file cannot be read. -/
def unreadable (path : String) (e : ReadError) : CheckOutcome :=
  ⟨2, "", "uss-check: Failed to read " ++ path ++ ": " ++ e.message ++ "\n"⟩

/-- The files with their texts, or the first that has none. -/
def load (read : String → Except ReadError String) :
    List String → Except (String × ReadError) (List CheckedFile)
  | [] => .ok []
  | path :: paths =>
    match read path with
    | .error e => .error (path, e)
    | .ok text => (load read paths).map (⟨path, text⟩ :: ·)

/-- Runs the command on the arguments it was given. -/
def run (current : Path) (read : String → Except ReadError String) (given : Arguments) :
    CheckOutcome :=
  match load read given.files with
  | .error (path, e) => unreadable path e
  | .ok fs =>
    let knowledge := if given.flags.contains "no-properties" then none else some Registry.builtin
    report (files current knowledge fs)

/-- The exit code when the arguments are refused, or ask for a text of their own. -/
def usageCode : ArgumentError → Nat
  | .helpRequested | .versionRequested => 0
  | _ => 2

end Check

/-- The text of a file by its path as given, seen from a directory. -/
def Disk.readPath (d : Disk) (current : Path) (path : String) : Except ReadError String :=
  (d.resolve current (.ofText path)).bind d.read

end StyleServer
