import RegionOutline.Files
import RegionOutline.Settings.Yaml

/-! # Where settings are kept

The settings directory follows from the environment: an override first, then the
desktop's configuration directory, then one below the home directory. Settings
that cannot be read are the defaults. -/

namespace RegionOutline

/-- The part of the environment that matters. -/
structure Environment where
  /-- `PRAGMA_OUTLINE_HOME`, which names the settings directory itself. -/
  override : Option String := none
  /-- `XDG_CONFIG_HOME`. -/
  configHome : Option String := none
  /-- `HOME`. -/
  home : Option String := none
  /-- Home directory of the account, for when `HOME` names none. -/
  accountHome : Option String := none
  deriving DecidableEq

namespace Environment

/-- A variable that is set but empty counts as not set. -/
def nonEmpty (value : Option String) : Option String :=
  value.filter (· ≠ "")

/-- The directory that programs keep their settings directories in. -/
def configRoot? (environment : Environment) : Option Path :=
  (nonEmpty environment.configHome).or <|
    ((nonEmpty environment.home).or environment.accountHome).map fun home =>
      Path.join home ".config"

def settingsDirectory? (environment : Environment) : Option Path :=
  (nonEmpty environment.override).or <|
    environment.configRoot?.map fun root => Path.join root "pragma-outline"

def settingsFile? (environment : Environment) : Option Path :=
  environment.settingsDirectory?.map fun directory => Path.join directory "config.yaml"

def logsDirectory? (environment : Environment) : Option Path :=
  environment.settingsDirectory?.map fun directory => Path.join directory "logs"

end Environment

/-- Why settings or logs could not be written. -/
inductive StorageError where
  | noDirectory
  | cannotCreate (directory : Path) (cause : FileError)
  | cannotWrite (path : Path) (cause : FileError)
  | cannotCreateLogs (directory : Path) (cause : FileError)
  deriving DecidableEq

namespace StorageError

def message : StorageError → String
  | .noDirectory => "No config directory available"
  | .cannotCreate directory cause => "Cannot create " ++ directory ++ ": " ++ cause.message
  | .cannotWrite path cause => "Cannot write " ++ path ++ ": " ++ cause.message
  | .cannotCreateLogs directory cause =>
      "Failed to create log directory " ++ directory ++ ": " ++ cause.message

end StorageError

namespace Settings

/-- The settings of a file that was read; the defaults when it could not be read
or is broken. -/
def ofContent : Except FileError String → Settings
  | .error _ => {}
  | .ok text => (ofYaml? text).getD {}

def loadFrom (files : FileTree) (path : Path) : Settings :=
  ofContent (files.readText path)

/-- The settings of the usual place, where files are read by the given function. -/
def load (read : Path → Except FileError String) (environment : Environment) : Settings :=
  match environment.settingsFile? with
  | none => {}
  | some path => ofContent (read path)

/-- Write settings to a file and make the directories above it. -/
def saveTo (settings : Settings) (path : Path) : FileAction StorageError Unit := do
  if let some directory := path.parent? then
    (FileAction.createDirectories directory).adapt (StorageError.cannotCreate directory)
  (FileAction.change (·.write path settings.toYaml.toUTF8)).adapt (StorageError.cannotWrite path)

/-- Write settings to the usual place. -/
def save (settings : Settings) (environment : Environment) : FileAction StorageError Unit :=
  match environment.settingsFile? with
  | none => throw .noDirectory
  | some path => settings.saveTo path

end Settings

/-- Make the directory for logs, if it is missing. -/
def ensureLogsDirectory (environment : Environment) : FileAction StorageError Path :=
  match environment.logsDirectory? with
  | none => throw .noDirectory
  | some directory => do
      (FileAction.createDirectories directory).adapt (StorageError.cannotCreateLogs directory)
      return directory

end RegionOutline
