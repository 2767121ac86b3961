import ArithFrontEnd.CommandLine.Report

/-!
# The program

The program reads the file that its arguments name, if they name one, and does what the report of
the command says: it prints a text, writes a file and says why it fails.

## Main definitions

* `main` — the program.
-/

namespace ArithFrontEnd.CommandLine

/-- Why the system refuses to read or write a file. -/
def fileError : IO.Error → FileError
  | .noFileOrDirectory _ code _ => .system "No such file or directory" code.toNat
  | .permissionDenied _ code _ => .system "Permission denied" code.toNat
  | .inappropriateType _ code details => .system details code.toNat
  | .invalidArgument _ code details => .system details code.toNat
  | e => .system (toString e) 5

/-- Read the text of a file. -/
def readText (path : String) : IO (Except FileError String) := do
  try
    return FileError.decode (← IO.FS.readBinFile path)
  catch e =>
    return .error (fileError e)

/-- Write the text of a file. -/
def writeText (path text : String) : IO (Except FileError Unit) := do
  try
    IO.FS.writeFile path text
    return .ok ()
  catch e =>
    return .error (fileError e)

/-- Run a command and answer with its exit code. -/
def execute (command : Command) : IO UInt32 := do
  let source ←
    match command.input? with
    | some path => readText path
    | none => pure (.ok "")
  let report := command.report fun _ => source
  IO.print report.printed
  let written ←
    match report.output with
    | some output => writeText output.path output.text
    | none => pure (.ok ())
  let report := report.afterWriting written
  IO.eprint report.errorText
  return report.exitCode.toUInt32

/-- Do what a list of arguments asks for, and answer with the exit code. -/
def perform (arguments : List String) : IO UInt32 := do
  match Request.ofArguments arguments with
  | .run command => execute command
  | .help =>
    IO.print usage
    return 0
  | .misuse =>
    IO.eprint usage
    return misuseCode.toUInt32

end ArithFrontEnd.CommandLine

/-- The program. -/
def main (arguments : List String) : IO UInt32 :=
  ArithFrontEnd.CommandLine.perform arguments
