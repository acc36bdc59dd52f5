/-
Running the command.

The options are read first, then the libraries are registered, and then the files in the order in
which they are named; the first thing that goes wrong ends the run.  The files are given as a
function, so that all of this is decided without a file system.
-/
import Overlay.Command.Arguments
import Overlay.Diagnostic.Report
import Overlay.Fragment.Json
import Overlay.Options.Json
import Overlay.Session
import Overlay.Table.Json
import Overlay.Table.Summary

namespace Overlay.Command

/-- What reading a file by its name gives: its text, or why it cannot be read. -/
abbrev Files : Type :=
  String → Except String String

/-- What goes wrong in a run. -/
inductive Trouble where
  | unreadable (file : String) (reason : String)
  | badOptions (file : String) (failure : Failure)
  | badRecords (file : String) (failure : Failure)
  | unknownLibrary (unknown : Library.Unknown)
  | noGlobal (name : String)
  | noModule (name : String)

/-- What is said about it, the cause of each sentence behind it; a `Failure` can be the last. -/
def Trouble.account : Trouble → List String × Option Failure
  | unreadable file reason => (["failed to read " ++ file, reason], none)
  | badOptions file failure => (["invalid options in " ++ file], some failure)
  | badRecords file failure => (["failed to parse " ++ file], some failure)
  | unknownLibrary unknown => (["failed to start session", unknown.message], none)
  | noGlobal name => (["no global declaration named '" ++ name ++ "'"], none)
  | noModule name => (["no ambient module named '" ++ name ++ "'"], none)

def Files.text (files : Files) (name : String) : Except Trouble String :=
  (files name).mapError (.unreadable name)

namespace Invocation

/-- The options of a run: those in the options file, then what is set by arguments. -/
def options (inv : Invocation) (files : Files) : Except Trouble Options := do
  let given ← match inv.optionsFile? with
    | none => .ok .standard
    | some name => do
      let text ← files.text name
      (Options.ofText text).mapError (.badOptions name)
  let libraries := inv.libraries?.getD given.libraries
  .ok {
    reportOverloads := given.reportOverloads && !inv.noOverloadReport
    acrossModules := given.acrossModules && !inv.noCrossModule
    libraries := if inv.noLibraries then [] else libraries }

/-- The table of a run. -/
def table (inv : Invocation) (files : Files) : Except Trouble Table := do
  let options ← inv.options files
  let session ← (Session.start options).mapError .unknownLibrary
  let session ← inv.files.foldlM (fun session name => do
    let text ← files.text name
    let fragment ← (Fragment.ofText name text).mapError (.badRecords name)
    .ok (session.add fragment)) session
  .ok session.build

/-- The lines of the declarations and modules that are asked for by name. -/
def selection (inv : Invocation) (table : Table) : Except Trouble (List Line) := do
  let globals ← inv.globals.mapM fun name =>
    match table.get? (.ofGlobal name) with
    | some d => .ok d.lines
    | none => .error (.noGlobal name)
  let modules ← inv.modules.mapM fun name =>
    match table.module? name with
    | some view => .ok view.lines
    | none => .error (.noModule name)
  .ok (globals.flatten ++ modules.flatten)

def output (inv : Invocation) (table : Table) : Except Trouble String :=
  if inv.globals.isEmpty && inv.modules.isEmpty then
    .ok <| match inv.format with
      | .summary => Line.render table.summary
      | .json => table.canonical
      | .none => ""
  else (inv.selection table).map Line.render

end Invocation

/-- What a run ends with. -/
structure Outcome where
  table : Table
  output : String

/-- The exit code: one if an error was reported. -/
def Outcome.exitCode (outcome : Outcome) : Nat :=
  if outcome.table.hasErrors then 1 else 0

def Invocation.run (inv : Invocation) (files : Files) : Except Trouble Outcome := do
  let table ← inv.table files
  let output ← inv.output table
  .ok ⟨table, output⟩

end Overlay.Command
