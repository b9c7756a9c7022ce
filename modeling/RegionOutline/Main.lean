import RegionOutline.Program

/-! # Entry point

Reads the environment and the two files that a run may need, and prints what the
run leaves behind. The outline is printed once; the watch flag is accepted but
changes of the file are not followed. -/

namespace RegionOutline.Program

/-- The cause of a failed read. The system reports the number of an error as it
is or negated. -/
def fileError : IO.Error → FileError
  | .permissionDenied .. => .denied
  | .inappropriateType _ code _ =>
      if code = 21 ∨ code = 0 - 21 then .isDirectory else .notDirectory
  | .invalidArgument .. => .nameTooLong
  | _ => .notFound

/-- Read a file as text. -/
def readText (path : Path) : IO (Except FileError String) := do
  try
    match String.fromUTF8? (← IO.FS.readBinFile path) with
    | none => return .error .notText
    | some text => return .ok text
  catch error => return .error (fileError error)

/-- The files that a run with these arguments may read. -/
def inputs (arguments : List String) (environment : Environment) : List Path :=
  match CommandLine.parse arguments with
  | .ok (.outline arguments) => environment.settingsFile?.toList ++ [arguments.file]
  | _ => []

end RegionOutline.Program

open RegionOutline in
def main (arguments : List String) : IO UInt32 := do
  let environment : Environment := {
    override := ← IO.getEnv "PRAGMA_OUTLINE_HOME"
    configHome := ← IO.getEnv "XDG_CONFIG_HOME"
    home := ← IO.getEnv "HOME" }
  let contents ← (Program.inputs arguments environment).mapM fun path => do
    return (path, ← Program.readText path)
  let read (path : Path) : Except FileError String :=
    (contents.lookup path).getD (.error .notFound)
  let isDirectory (path : Path) : Bool := match read path with
    | .error .isDirectory => true
    | _ => false
  let outcome := Program.run arguments environment isDirectory read
  (← IO.getStdout).putStr outcome.stdout
  (← IO.getStderr).putStr outcome.stderr
  return outcome.exitCode
