import RegionOutline.CommandLine
import RegionOutline.Engine
import RegionOutline.Settings.Location
import RegionOutline.View.Json

/-! # The program

Print the outline of one file. The caret, when one is given, decides which rows
are shown and which is marked. -/

namespace RegionOutline

/-- What a run needs to know once arguments and settings are merged. -/
structure Startup where
  file : Path
  caretLine : Option Nat
  format : OutputFormat
  watch : Bool
  settings : Settings
  deriving DecidableEq

/-- Why no outline was printed. -/
inductive RunError where
  | isDirectory (file : Path)
  | cannotRead (file : Path) (cause : FileError)
  deriving DecidableEq

namespace RunError

/-- What went wrong, in one line. -/
def message : RunError → String
  | .isDirectory file => file ++ " is a directory"
  | .cannotRead file _ => "Failed to read " ++ file

/-- The report of an error, with its cause below it. -/
def report (error : RunError) : String :=
  match error with
  | .isDirectory _ => "Error: " ++ error.message ++ "\n"
  | .cannotRead _ cause =>
      "Error: " ++ error.message ++ "\n\nCaused by:\n    " ++ cause.message ++ "\n"

end RunError

namespace Arguments

/-- Lay the arguments over the settings. Data output has no colours. -/
def startup (arguments : Arguments) (isDirectory : Path → Bool) (settings : Settings) :
    Except RunError Startup :=
  if isDirectory arguments.file then .error (.isDirectory arguments.file)
  else
    .ok {
      file := arguments.file
      caretLine := arguments.line.map (max · 1)
      format := arguments.format
      watch := arguments.watch
      settings :=
        { settings with
          entriesAbove := arguments.entriesAbove.getD settings.entriesAbove
          color := settings.color && !arguments.noColor && arguments.format ≠ .json } }

end Arguments

namespace Startup

/-- The engine over a text, before anything has happened. Rows are limited only
when a caret line is given. -/
def engine (startup : Startup) (content : String) : Engine :=
  let document : Document := { content, path := some startup.file }
  let options := ViewOptions.ofSettings startup.settings
  { session := { settings := startup.settings }
    host := { document := (startup.caretLine.map document.setCaret).getD document }
    view := {
      options :=
        { options with rows := startup.caretLine.map fun _ => startup.settings.visibleRows } } }

/-- The view once the text is scanned and shown. -/
def view (startup : Startup) (content : String) : View :=
  ((startup.engine content).handleEvent .opened).runUntilIdle.view

/-- What is printed of a view. -/
def render (startup : Startup) (view : View) : String :=
  match startup.format with
  | .text => view.text
  | .json => view.json ++ "\n"

/-- What is printed for a text. -/
def output (startup : Startup) (content : String) : String :=
  startup.render (startup.view content)

end Startup

/-- What a run leaves behind. -/
structure Outcome where
  exitCode : UInt32 := 0
  stdout : String := ""
  stderr : String := ""
  deriving DecidableEq

namespace Program

def versionText : String := "pragma-outline 0.1.0\n"

def usageText : String :=
  "Print the #pragma region outline of a source file\n\n"
    ++ "Usage: pragma-outline [OPTIONS] <FILE>\n\n"
    ++ "Options:\n"
    ++ "      --line <N>           Treat line N as the caret position and focus its entry\n"
    ++ "      --format <FORMAT>    Output format: text or json\n"
    ++ "  -w, --watch              Keep running and print again when the file changes\n"
    ++ "      --entries-above <N>  Rows kept above the focused entry\n"
    ++ "      --no-color           Disable colors\n"
    ++ "  -h, --help               Print help\n"
    ++ "  -V, --version            Print version\n"

/-- Print the outline that the arguments ask for. -/
def outline (arguments : Arguments) (settings : Settings) (isDirectory : Path → Bool)
    (read : Path → Except FileError String) : Except RunError String := do
  let startup ← arguments.startup isDirectory settings
  let content ← (read startup.file).mapError (RunError.cannotRead startup.file)
  return startup.output content

/-- Run the program where directories and files are told by the given functions. -/
def run (arguments : List String) (environment : Environment) (isDirectory : Path → Bool)
    (read : Path → Except FileError String) : Outcome :=
  match CommandLine.parse arguments with
  | .error error => { exitCode := 2, stderr := "error: " ++ error.message ++ "\n" }
  | .ok .help => { stdout := usageText }
  | .ok .version => { stdout := versionText }
  | .ok (.outline arguments) =>
      match outline arguments (Settings.load read environment) isDirectory read with
      | .error error => { exitCode := 1, stderr := error.report }
      | .ok text => { stdout := text }

end Program

end RegionOutline
