/-
  Command lines.

  A command has flags (`--name`), options with a value (`--name value` or
  `--name=value`), and perhaps files.  Behind `--` everything is a file.  An
  argument that begins with a dash is never taken for the value of an option.

  Arguments are read from the left, and the first fault ends the reading.  A
  value that stands apart from its option is only looked at when the next
  argument has been recognized: so an unknown argument is reported before a
  missing value that precedes it.
-/
namespace StyleServer

/-- Why a command line is refused, or what it asks for in place of a run. -/
inductive ArgumentError where
  | unknownArgument
  /-- A value is missing or empty. -/
  | invalidValue
  /-- A flag has been given a value. -/
  | tooManyValues
  /-- An argument has been given twice. -/
  | repeated
  /-- No file is named. -/
  | missingFiles
  | helpRequested
  | versionRequested
deriving DecidableEq

/-- The arguments of a command. -/
structure CommandForm where
  flags : List String
  /-- Options whose value is any text. -/
  textOptions : List String
  /-- Options whose value is a path, which is not empty. -/
  pathOptions : List String
  /-- The command takes files, at least one. -/
  takesFiles : Bool
deriving DecidableEq

/-- What a command line gives. -/
structure Arguments where
  flags : List String := []
  options : List (String × String) := []
  files : List String := []
deriving DecidableEq

/-- What has been read and waits to be settled. -/
inductive Pending where
  | nothing
  | option (name : String) (value : Option String)
  | files (names : List String)
deriving DecidableEq

/-- A point inside the reading of a command line. -/
structure ArgumentState where
  given : Arguments := {}
  pending : Pending := .nothing
  /-- `--` has been read. -/
  onlyFiles : Bool := false
deriving DecidableEq

/-- An argument by its dashes. -/
inductive ArgumentShape where
  | separator
  | long (name : String) (value : Option String)
  | short (letters : List Char)
  | plain
deriving DecidableEq

/-- The shape of an argument. -/
def ArgumentShape.of (argument : String) : ArgumentShape :=
  match argument.toList with
  | ['-', '-'] => separator
  | '-' :: '-' :: rest =>
    long (String.ofList (rest.takeWhile (· != '=')))
      (match rest.dropWhile (· != '=') with
        | [] => none
        | _ :: value => some (String.ofList value))
  | ['-'] => plain
  | '-' :: letters => short letters
  | _ => plain

namespace CommandForm

/-- Gives an option its value. -/
def giveOption (c : CommandForm) (given : Arguments) (name value : String) :
    Except ArgumentError Arguments :=
  if (given.options.lookup name).isSome then .error .repeated
  else if value = "" ∧ name ∈ c.pathOptions then .error .invalidValue
  else .ok { given with options := given.options ++ [(name, value)] }

/-- What is given once the pending part is settled. -/
def settle (c : CommandForm) (s : ArgumentState) : Except ArgumentError Arguments :=
  match s.pending with
  | .nothing => .ok s.given
  | .option _ none => .error .invalidValue
  | .option name (some value) => c.giveOption s.given name value
  | .files names =>
    if names.contains "" then .error .invalidValue
    else .ok { s.given with files := s.given.files ++ names }

/-- The state behind a flag, or an option with its value attached. -/
def settled (given : Arguments) : ArgumentState := { given := given }

/-- Reads an argument with two dashes. -/
def readLong (c : CommandForm) (s : ArgumentState) (name : String) (value : Option String) :
    Except ArgumentError ArgumentState :=
  if name ∈ c.textOptions ++ c.pathOptions then do
    let given ← c.settle s
    match value with
    | some value => return settled (← c.giveOption given name value)
    | none => return { given := given, pending := .option name none }
  else if name ∈ ["help", "version"] ++ c.flags then
    match value with
    | some _ => .error .tooManyValues
    | none => do
      let given ← c.settle s
      if name = "help" then .error .helpRequested
      else if name = "version" then .error .versionRequested
      else if name ∈ given.flags then .error .repeated
      else return settled { given with flags := given.flags ++ [name] }
  else .error .unknownArgument

/-- Reads an argument with one dash. -/
def readShort (c : CommandForm) (s : ArgumentState) (letters : List Char) :
    Except ArgumentError ArgumentState :=
  match letters with
  | 'h' :: _ => do
    let _ ← c.settle s
    .error .helpRequested
  | 'V' :: _ => do
    let _ ← c.settle s
    .error .versionRequested
  | _ => .error .unknownArgument

/-- Reads a file. -/
def readFile (c : CommandForm) (s : ArgumentState) (argument : String) :
    Except ArgumentError ArgumentState :=
  if c.takesFiles then
    match s.pending with
    | .files names => .ok { s with pending := .files (names ++ [argument]) }
    | _ => do return { s with given := ← c.settle s, pending := .files [argument] }
  else .error .unknownArgument

/-- Reads an argument. -/
def readArgument (c : CommandForm) (s : ArgumentState) (argument : String) :
    Except ArgumentError ArgumentState :=
  if s.onlyFiles then c.readFile s argument
  else match ArgumentShape.of argument with
    | .separator => .ok { s with onlyFiles := true }
    | .long name value => c.readLong s name value
    | .short letters => c.readShort s letters
    | .plain =>
      match s.pending with
      | .option name none => .ok { s with pending := .option name (some argument) }
      | _ => c.readFile s argument

/-- Reads a command line. -/
def read (c : CommandForm) (arguments : List String) : Except ArgumentError Arguments := do
  let given ← c.settle (← arguments.foldlM c.readArgument {})
  if c.takesFiles ∧ given.files = [] then .error .missingFiles else return given

end CommandForm

end StyleServer
