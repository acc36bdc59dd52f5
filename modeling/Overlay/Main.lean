/-
The command.

All that the command does is decided in `Overlay.Command.Run`; here the files are read and the
results are printed, the table to the standard output and the report to the standard error output.
-/
import Overlay.Command.Run

namespace Overlay.Command

/-- The text of a file, or why it cannot be read. -/
def readFile (name : String) : IO (Except String String) := do
  try
    return .ok (← IO.FS.readFile name)
  catch e =>
    return .error (toString e)

/-- The files that are named in arguments, read one after the other. -/
def Invocation.readFiles (inv : Invocation) : IO Files := do
  let names := inv.optionsFile?.toList ++ inv.files
  let contents ← names.mapM fun name => do
    let content ← readFile name
    return (name, content)
  return fun name => (contents.lookup name).getD (.error "No such file or directory (os error 2)")

/-- What is said about a failure behind other causes. -/
def failureText : Failure → String
  | .fault .malformed => "malformed JSON"
  | .fault .truncated => "unexpected end of JSON"
  | .mismatch m => m.message

def Trouble.print (trouble : Trouble) : IO Unit := do
  let (sentences, failure?) := trouble.account
  for sentence in sentences ++ failure?.toList.map failureText do
    IO.eprintln sentence

/-- How the command is used. -/
def usage : String :=
  "Merge ambient declaration records into a symbol table\n\n" ++
  "Usage: ambient [OPTIONS] [FILES]...\n\n" ++
  "Options:\n" ++
  "  -p, --options <FILE>    Path to a JSON options file\n" ++
  "      --lib <LIB>         Embedded libraries to register before the input files\n" ++
  "      --noLib             Do not register any embedded library\n" ++
  "      --noOverloadReport  Do not report members that become overloads\n" ++
  "      --noCrossModule     Only look names up in their own scope and the global scope\n" ++
  "      --listLibs          List the available embedded libraries and exit\n" ++
  "      --global <NAME>     Print one global declaration instead of the whole table\n" ++
  "      --module <NAME>     Print one ambient module instead of the whole table\n" ++
  "      --format <FORMAT>   Output format for the table: summary, json or none\n" ++
  "      --pretty <BOOL>     Colorize diagnostics: true or false\n" ++
  "  -h, --help              Print help\n" ++
  "  -V, --version           Print version\n"

/-- Answers arguments that are not carried out; the result is the exit code. -/
def Rejection.print : Rejection → IO UInt32
  | .help => do
    IO.print usage
    return 0
  | .version => do
    IO.println "ambient 0.1.0"
    return 0
  | .unknownArgument => complain "unexpected argument"
  | .invalidValue => complain "a value is missing or not allowed"
  | .conflict => complain "an argument cannot be used multiple times"
  | .tooManyValues => complain "unexpected value for an argument"
where
  /-- Says what is wrong with the arguments. -/
  complain (text : String) : IO UInt32 := do
    IO.eprintln ("error: " ++ text)
    return 2

def printLibraries : IO Unit := do
  for library in Library.all do
    IO.println (library.name ++ " (" ++ library.file ++ ")")

/-- Prints what a run ends with; the result is the exit code. -/
def Outcome.print (outcome : Outcome) (colour : Bool) : IO UInt32 := do
  IO.print outcome.output
  let ds := outcome.table.diagnostics
  unless ds.isEmpty do
    IO.eprintln (Diagnostic.report colour ds)
  if let some line := Diagnostic.summary? outcome.table.log then
    IO.eprintln ("\n" ++ line)
  return outcome.exitCode.toUInt32

def perform (arguments : List String) : IO UInt32 := do
  match Invocation.ofArguments arguments with
  | .error rejection => rejection.print
  | .ok inv =>
    if inv.listLibraries then
      printLibraries
      return 0
    match inv.run (← inv.readFiles) with
    | .error trouble =>
      trouble.print
      return 1
    | .ok outcome => outcome.print (inv.pretty?.getD false)

end Overlay.Command

def main (arguments : List String) : IO UInt32 :=
  Overlay.Command.perform arguments
