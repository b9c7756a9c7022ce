import RegionOutline.Files
import RegionOutline.Settings
import RegionOutline.Text.Decimal

/-! # The command line

Arguments are read from left to right. The value of an option, and the file name,
are examined only when the next known argument is reached or the arguments end,
so an unknown argument right after a bad value is the one reported. -/

namespace RegionOutline

inductive OutputFormat where
  | text
  | json
  deriving DecidableEq

/-- What the arguments ask for when they ask for an outline. -/
structure Arguments where
  file : Path
  line : Option Nat := none
  format : OutputFormat := .text
  watch : Bool := false
  entriesAbove : Option Nat := none
  noColor : Bool := false
  deriving DecidableEq

inductive Request where
  | outline (arguments : Arguments)
  | help
  | version
  deriving DecidableEq

/-- What is wrong with the arguments. -/
inductive UsageError where
  | missingFile
  | emptyFile
  | unknownArgument (argument : String)
  | missingValue (option : String)
  | notNumber (option value : String)
  | notFormat (value : String)
  | repeated (option : String)
  | unexpectedValue (option : String)
  deriving DecidableEq

namespace UsageError

def message : UsageError → String
  | .missingFile => "a FILE is required"
  | .emptyFile => "FILE must not be empty"
  | .unknownArgument argument => "unexpected argument '" ++ argument ++ "'"
  | .missingValue option => "a value is required for '" ++ option ++ "'"
  | .notNumber option value => "invalid number '" ++ value ++ "' for '" ++ option ++ "'"
  | .notFormat value => "invalid format '" ++ value ++ "': text or json"
  | .repeated option => "'" ++ option ++ "' cannot be used twice"
  | .unexpectedValue option => "'" ++ option ++ "' takes no value"

end UsageError

namespace CommandLine

/-- Options that take a value. -/
inductive Valued where
  | line
  | format
  | entriesAbove
  deriving DecidableEq

/-- Options that take none. -/
inductive Flag where
  | watch
  | noColor
  | help
  | version
  deriving DecidableEq

def Valued.name : Valued → String
  | .line => "--line"
  | .format => "--format"
  | .entriesAbove => "--entries-above"

def Flag.name : Flag → String
  | .watch => "--watch"
  | .noColor => "--no-color"
  | .help => "--help"
  | .version => "--version"

/-- An option by its long name. -/
def longOption? (name : String) : Option (Valued ⊕ Flag) :=
  match name with
  | "line" => some (.inl .line)
  | "format" => some (.inl .format)
  | "entries-above" => some (.inl .entriesAbove)
  | "watch" => some (.inr .watch)
  | "no-color" => some (.inr .noColor)
  | "help" => some (.inr .help)
  | "version" => some (.inr .version)
  | _ => none

/-- A flag by its letter. -/
def shortFlag? : Char → Option Flag
  | 'w' => some .watch
  | 'h' => some .help
  | 'V' => some .version
  | _ => none

/-- An argument that is not examined yet. -/
inductive Pending where
  | option (option : Valued) (value : Option String)
  | file (path : Path)
  deriving DecidableEq

/-- What the arguments read so far have set. -/
structure Reading where
  file : Option Path := none
  line : Option Nat := none
  format : Option OutputFormat := none
  entriesAbove : Option Nat := none
  watch : Bool := false
  noColor : Bool := false
  pending : Option Pending := none
  /-- Whether a file was named, examined or not. -/
  hasFile : Bool := false
  deriving DecidableEq

/-- Reading goes on, or a request is complete before the arguments end. -/
abbrev Step := Except UsageError (Reading ⊕ Request)

/-- A number: an optional plus sign and decimal digits. -/
def number? (text : String) : Option Nat :=
  Text.wordNumeral? 10 ((Text.stripStart? ['+'] text.toList).getD text.toList)

def format? : String → Option OutputFormat
  | "text" => some .text
  | "json" => some .json
  | _ => none

namespace Reading

/-- Take over the value of an option that was not given before. -/
def setValue (reading : Reading) (option : Valued) (value : String) :
    Except UsageError Reading :=
  match option with
  | .line =>
      if reading.line.isSome then .error (.repeated option.name)
      else match number? value with
        | none => .error (.notNumber option.name value)
        | some n => .ok { reading with line := some n }
  | .entriesAbove =>
      if reading.entriesAbove.isSome then .error (.repeated option.name)
      else match number? value with
        | none => .error (.notNumber option.name value)
        | some n => .ok { reading with entriesAbove := some n }
  | .format =>
      if reading.format.isSome then .error (.repeated option.name)
      else match format? value with
        | none => .error (.notFormat value)
        | some format => .ok { reading with format := some format }

/-- Examine what was left for later. -/
def settle (reading : Reading) : Except UsageError Reading :=
  let settled := { reading with pending := none }
  match reading.pending with
  | none => .ok reading
  | some (.option option none) => .error (.missingValue option.name)
  | some (.option option (some value)) => settled.setValue option value
  | some (.file path) => if path = "" then .error .emptyFile else .ok { settled with file := path }

/-- Set a flag; help and version complete the request. -/
def setFlag (reading : Reading) (flag : Flag) : Step := do
  let reading ← reading.settle
  match flag with
  | .help => return .inr .help
  | .version => return .inr .version
  | .watch =>
      if reading.watch then throw (.repeated flag.name)
      return .inl { reading with watch := true }
  | .noColor =>
      if reading.noColor then throw (.repeated flag.name)
      return .inl { reading with noColor := true }

/-- Set the flags of a bundle of letters. -/
def setFlags : List Char → Reading → Step
  | [], reading => .ok (.inl reading)
  | letter :: letters, reading =>
      match shortFlag? letter with
      | none => .error (.unknownArgument ("-" ++ String.singleton letter))
      | some flag => do
          match ← reading.setFlag flag with
          | .inl reading => setFlags letters reading
          | .inr request => return .inr request

/-- Take a long option with the value attached to it, if there is one. -/
def longArgument (reading : Reading) (name : String) (value : Option String) : Step :=
  match longOption? name, value with
  | none, _ => .error (.unknownArgument ("--" ++ name))
  | some (.inr flag), some _ => .error (.unexpectedValue flag.name)
  | some (.inr flag), none => reading.setFlag flag
  | some (.inl option), some value => do
      return .inl (← (← reading.settle).setValue option value)
  | some (.inl option), none => do
      return .inl { ← reading.settle with pending := some (.option option none) }

/-- Take a file name; there is only one. -/
def fileArgument (reading : Reading) (path : String) : Except UsageError Reading :=
  if reading.hasFile then .error (.unknownArgument path)
  else do return { ← reading.settle with pending := some (.file path), hasFile := true }

/-- Take an argument that is no option: the value that is waited for, or a file. -/
def plainArgument (reading : Reading) (argument : String) : Except UsageError Reading :=
  match reading.pending with
  | some (.option option none) =>
      .ok { reading with pending := some (.option option (some argument)) }
  | _ => reading.fileArgument argument

/-- Cut a long argument at its first equals sign. -/
def splitEquals (text : List Char) : String × Option String :=
  let name := String.ofList (text.takeWhile (· != '='))
  match text.dropWhile (· != '=') with
  | [] => (name, none)
  | _ :: value => (name, some (String.ofList value))

/-- Take an argument in front of the two dashes that end the options. -/
def argument (reading : Reading) (argument : String) : Step :=
  match argument.toList with
  | '-' :: '-' :: rest =>
      let (name, value) := splitEquals rest
      reading.longArgument name value
  | '-' :: letter :: letters => setFlags (letter :: letters) reading
  | _ => (reading.plainArgument argument).map .inl

/-- The request once all arguments are read. -/
def finish (reading : Reading) : Except UsageError Request := do
  let reading ← reading.settle
  match reading.file with
  | none => throw .missingFile
  | some file =>
      return .outline {
        file
        line := reading.line
        format := reading.format.getD .text
        watch := reading.watch
        entriesAbove := reading.entriesAbove
        noColor := reading.noColor }

/-- Read the remaining arguments. After two dashes all of them are files. -/
def readAll : Bool → List String → Reading → Except UsageError Request
  | _, [], reading => reading.finish
  | true, argument :: rest, reading => do readAll true rest (← reading.fileArgument argument)
  | false, "--" :: rest, reading => readAll true rest reading
  | false, argument :: rest, reading => do
      match ← reading.argument argument with
      | .inl reading => readAll false rest reading
      | .inr request => return request

end Reading

/-- Read the arguments of the program. -/
def parse (arguments : List String) : Except UsageError Request :=
  Reading.readAll false arguments {}

end CommandLine

end RegionOutline
