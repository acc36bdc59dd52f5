/-
Arguments of the command.

An argument is a file, a setting, or the value of the setting in front of it; behind `--` all
arguments are files.  Long settings take their value behind `=` or as the next argument; short ones
also directly behind the letter.  A value that is the next argument, and the files, are looked at
only when the next setting or file begins, or at the end: of two faults it is therefore not always
the first that is reported.
-/
import Overlay.Options

namespace Overlay.Command

/-- How the table is printed. -/
inductive Format where
  | summary
  | json
  | none
deriving DecidableEq, Repr

/-- What the command is asked to do. -/
structure Invocation where
  files : List String
  optionsFile? : Option String
  libraries? : Option (List String)
  noLibraries : Bool
  noOverloadReport : Bool
  noCrossModule : Bool
  listLibraries : Bool
  globals : List String
  modules : List String
  format : Format
  pretty? : Option Bool
deriving DecidableEq, Repr

def Invocation.plain : Invocation :=
  ⟨[], none, none, false, false, false, false, [], [], .summary, none⟩

/-- Why the arguments are not carried out. -/
inductive Rejection where
  | help
  | version
  | unknownArgument
  /-- A value that is missing or not allowed. -/
  | invalidValue
  /-- A setting is given twice. -/
  | conflict
  | tooManyValues
deriving DecidableEq, Repr

/-! ### Settings -/

/-- What an argument can set. -/
inductive Setting where
  | optionsFile
  | libraries
  | noLibraries
  | noOverloadReport
  | noCrossModule
  | listLibraries
  | global
  | ambient
  | format
  | pretty
  | help
  | version
deriving DecidableEq, Repr

namespace Setting

def ofLong? : String → Option Setting
  | "options" => some optionsFile
  | "lib" => some libraries
  | "noLib" | "no-lib" => some noLibraries
  | "noOverloadReport" | "no-overload-report" => some noOverloadReport
  | "noCrossModule" | "no-cross-module" => some noCrossModule
  | "listLibs" | "list-libs" => some listLibraries
  | "global" => some global
  | "module" => some ambient
  | "format" => some format
  | "pretty" => some pretty
  | "help" => some help
  | "version" => some version
  | _ => none

def ofShort? : Char → Option Setting
  | 'p' => some optionsFile
  | 'h' => some help
  | 'V' => some version
  | _ => none

def takesValue : Setting → Bool
  | optionsFile | libraries | global | ambient | format | pretty => true
  | _ => false

def isRepeatable : Setting → Bool
  | libraries | global | ambient => true
  | _ => false

def format? : String → Option Format
  | "summary" => some .summary
  | "json" => some .json
  | "none" => some .none
  | _ => none

def truth? : String → Option Bool
  | "true" => some true
  | "false" => some false
  | _ => none

/-- A value, if there is one that is allowed. -/
def demand {α : Type} : Option α → Except Rejection α
  | some value => .ok value
  | none => .error .invalidValue

/-- The name of a file: it may not be empty. -/
def fileName? (name : String) : Option String :=
  if name.isEmpty then none else some name

/-- Carries out a setting; `value` is empty for one that takes none. -/
def apply (inv : Invocation) (value : String) : Setting → Except Rejection Invocation
  | optionsFile => do
    let name ← demand (fileName? value)
    .ok { inv with optionsFile? := some name }
  | libraries => .ok { inv with libraries? := some (inv.libraries?.getD [] ++ value.splitOn ",") }
  | noLibraries => .ok { inv with noLibraries := true }
  | noOverloadReport => .ok { inv with noOverloadReport := true }
  | noCrossModule => .ok { inv with noCrossModule := true }
  | listLibraries => .ok { inv with listLibraries := true }
  | global => .ok { inv with globals := inv.globals ++ [value] }
  | ambient => .ok { inv with modules := inv.modules ++ [value] }
  | format => do
    let format ← demand (format? value)
    .ok { inv with format }
  | pretty => do
    let pretty ← demand (truth? value)
    .ok { inv with pretty? := some pretty }
  | help => .error .help
  | version => .error .version

end Setting

/-! ### Reading -/

/-- What is not carried out yet. -/
inductive Pending where
  | nothing
  /-- A setting and its value, if that has come. -/
  | setting (setting : Setting) (value? : Option String)
  | files (names : List String)
deriving DecidableEq, Repr

/-- What was read so far. -/
structure Progress where
  invocation : Invocation
  seen : List Setting
  pending : Pending
  /-- All further arguments are files. -/
  filesOnly : Bool
deriving DecidableEq, Repr

namespace Progress

def start : Progress :=
  ⟨.plain, [], .nothing, false⟩

def perform (p : Progress) (s : Setting) (value? : Option String) : Except Rejection Progress := do
  if s.takesValue && value?.isNone then .error .invalidValue
  else if !s.isRepeatable && s ∈ p.seen then .error .conflict
  else
    let invocation ← s.apply p.invocation (value?.getD "")
    .ok { p with invocation, seen := s :: p.seen }

/-- Carries out what is pending. -/
def settle (p : Progress) : Except Rejection Progress :=
  let done := { p with pending := .nothing }
  match p.pending with
  | .nothing => .ok done
  | .setting s value? => done.perform s value?
  | .files names =>
    if names.all fun name => !name.isEmpty then
      .ok { done with invocation.files := p.invocation.files ++ names }
    else .error .invalidValue

def file (p : Progress) (name : String) : Except Rejection Progress :=
  match p.pending with
  | .files names => .ok { p with pending := .files (names ++ [name]) }
  | _ => do
    let p ← p.settle
    .ok { p with pending := .files [name] }

/-- Takes a setting, with the value attached to it. -/
def setting (p : Progress) (s : Setting) (attached? : Option String) :
    Except Rejection Progress := do
  let p ← p.settle
  if s.takesValue && attached?.isNone then .ok { p with pending := .setting s none }
  else p.perform s attached?

/-- Takes a long setting: its name, and what is attached behind `=`. -/
def long (p : Progress) (name : String) (attached? : Option String) : Except Rejection Progress :=
  match Setting.ofLong? name with
  | none => .error .unknownArgument
  | some s =>
    if !s.takesValue && attached?.isSome then .error .tooManyValues else p.setting s attached?

/-- Takes short settings that are written together.  The first that takes a value has all that
follows for its value, with or without `=`. -/
def short (p : Progress) : List Char → Except Rejection Progress
  | [] => .ok p
  | c :: rest =>
    match Setting.ofShort? c with
    | none => .error .unknownArgument
    | some s =>
      if s.takesValue then
        p.setting s <| match rest with
          | [] => none
          | '=' :: value => some (String.ofList value)
          | value => some (String.ofList value)
      else do
        let p ← p.setting s none
        p.short rest

/-- Takes an argument that is no setting. -/
def plain (p : Progress) (argument : String) : Except Rejection Progress :=
  match p.pending with
  | .setting s none => .ok { p with pending := .setting s (some argument) }
  | _ => p.file argument

def take (p : Progress) (argument : String) : Except Rejection Progress :=
  if p.filesOnly then p.file argument
  else
    match argument.toList with
    | ['-', '-'] => .ok { p with filesOnly := true }
    | '-' :: '-' :: text =>
      match text.span (· ≠ '=') with
      | (name, []) => p.long (String.ofList name) none
      | (name, _ :: value) => p.long (String.ofList name) (some (String.ofList value))
    | '-' :: c :: text => p.short (c :: text)
    | _ => p.plain argument

end Progress

/-- What arguments ask for. -/
def Invocation.ofArguments (arguments : List String) : Except Rejection Invocation := do
  let p ← arguments.foldlM Progress.take .start
  let p ← p.settle
  .ok p.invocation

end Overlay.Command
