/-
  The configuration of the language server: its command line, and the settings
  of the project.
-/
import StyleServer.Config.Arguments
import StyleServer.Config.Settings
import StyleServer.Property.Directory

namespace StyleServer

/-- The name of the file that holds a project's settings. -/
def settingsFileName : String := ".uss-ls.toml"

/-- The configuration. -/
structure Config where
  /-- Directories of property files, later ones before earlier ones. -/
  propertyDirectories : List String := []
  logLevel : String := "info"
  /-- Diagnostics are turned off by the command line. -/
  noValidation : Bool := false
  settings : Settings := {}
  /-- The file that the settings were read from. -/
  settingsFile : Option String := none
deriving DecidableEq

/-- Why the settings of a project cannot be read, with the path of their file. -/
inductive ConfigError where
  | unreadable (path : String) (cause : ReadError)
  | invalid (path : String)
deriving DecidableEq

namespace ConfigError

/-- The wording of a failure. -/
def message : ConfigError → String
  | unreadable path _ => "Failed to read project config: " ++ path
  | invalid path => "Invalid project config: " ++ path

/-- What lies behind a failure. -/
def cause : ConfigError → String
  | unreadable _ e => e.message
  | invalid _ => "Failed to parse project configuration"

end ConfigError

/-- Where the program runs. -/
structure Surroundings where
  disk : Disk
  /-- The current directory. -/
  current : Path
  /-- The directory of the user's configuration. -/
  user : Path
deriving DecidableEq

/-- The command line of the language server. -/
def serverCommand : CommandForm where
  flags := ["no-validation"]
  textOptions := ["log-level"]
  pathOptions := ["property-dir"]
  takesFiles := false

/-- Why there is no configuration. -/
inductive StartError where
  | arguments (e : ArgumentError)
  | config (e : ConfigError)
deriving DecidableEq

namespace Config

/-- With the settings of the project in a directory, if it has any. -/
def loadSettings (c : Config) (d : Disk) (directory : WrittenPath) :
    Except ConfigError (Config × Bool) :=
  let written := directory.join settingsFileName
  match (d.resolve [] written).toOption.filter d.isFile with
  | none => .ok (c, false)
  | some path =>
    match d.read path with
    | .error e => .error (.unreadable written.text e)
    | .ok text =>
      match Settings.parse? text with
      | none => .error (.invalid written.text)
      | some settings =>
        .ok ({ c with settings := settings, settingsFile := some written.text }, true)

/-- The configuration that arguments make, before any settings. -/
def ofArguments (user : Path) (given : Arguments) : Config where
  propertyDirectories :=
    [Path.text (user ++ ["uss-ls", "properties"])] ++ (given.options.lookup "property-dir").toList
  logLevel := (given.options.lookup "log-level").getD "info"
  noValidation := given.flags.contains "no-validation"

/-- The configuration of a command line, with the settings of the current directory. -/
def start (around : Surroundings) (arguments : List String) : Except StartError Config := do
  let given ← (serverCommand.read arguments).mapError .arguments
  let (config, _) ←
    ((ofArguments around.user given).loadSettings around.disk around.current.written).mapError .config
  return config

/-- Diagnostics are published. -/
def validates (c : Config) : Bool := !c.noValidation && c.settings.validation.enabled

/-- Properties are checked. -/
def checksProperties (c : Config) : Bool := c.validates && c.settings.validation.properties

/-- Hover texts and completion are given. -/
def assists (c : Config) : Bool := c.settings.assist.enabled

/-- The properties that are known under a configuration. -/
def registry (c : Config) (around : Surroundings) : Registry :=
  .withDirectories around.disk around.current c.propertyDirectories

end Config

end StyleServer
