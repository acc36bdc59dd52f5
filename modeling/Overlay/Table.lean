/-
The table of declarations.

A table is what a build ends with.  It holds the merged declarations with their names looked up,
a view of them by module, and all diagnostics.  In the view of a module its own declaration without
a body is not listed.  Declarations are found by their keys, and modules by their names, through
indexes that are made when the table is.
-/
import Overlay.Diagnostic.Log
import Overlay.Resolve

namespace Overlay

/-- What is declared in the body of a module. -/
structure ModuleView where
  name : String
  declarations : List Declaration
deriving DecidableEq

namespace ModuleView

def members (view : ModuleView) : List Member :=
  view.declarations.flatMap Declaration.members

def declaration? (view : ModuleView) (name : String) : Option Declaration :=
  view.declarations.find? fun d => d.key.name == name

/-- Whether no declaration in the module has a member. -/
def isOpaque (view : ModuleView) : Bool :=
  view.declarations.all fun d => d.members.isEmpty

end ModuleView

/-- The result of a build. -/
structure Table where
  declarations : List Declaration
  modules : List ModuleView
  diagnostics : List Diagnostic
  /-- The places of the declarations by their keys. -/
  declarationIndex : Assoc Key Nat
  /-- The places of the modules by their names. -/
  moduleIndex : Assoc String Nat
deriving DecidableEq

namespace Table

/-! ### Building -/

/-- Whether a declaration is listed in the view of its module. -/
def isListed (d : Declaration) : Bool :=
  !(d.key.isOwn && d.isStub)

/-- Takes a declaration into the lists of its module, if it stands in one. -/
def addToModule (lists : Assoc String (List Declaration)) (d : Declaration) :
    Assoc String (List Declaration) :=
  match d.key.scope with
  | .global => lists
  | .ambient name =>
    -- a module has a view even if nothing is listed in it
    lists.alter name fun ds? => ds?.getD [] ++ if isListed d then [d] else []

/-- The views of the modules, in the order in which they come first. -/
def modulesOf (ds : List Declaration) : List ModuleView :=
  (ds.foldl addToModule []).map fun (name, declarations) => ⟨name, declarations⟩

/-- The table of declarations, with its views and indexes. -/
def ofDeclarations (declarations : List Declaration) (diagnostics : List Diagnostic) : Table :=
  let modules := modulesOf declarations
  ⟨declarations, modules, diagnostics, Assoc.places (declarations.map Declaration.key),
    Assoc.places (modules.map ModuleView.name)⟩

/-- The table of merged declarations; their names are looked up here. -/
def ofMerged (options : Options) (merged : Merged) : Table :=
  let resolved := merged.resolve options
  ofDeclarations resolved.declarations resolved.diagnostics

def ofRegistry (options : Options) (registry : Registry) : Table :=
  ofMerged options (.ofRegistry options registry)

def empty : Table :=
  ofDeclarations [] []

/-! ### Looking things up -/

def get? (table : Table) (key : Key) : Option Declaration :=
  (table.declarationIndex.get? key).bind fun index => table.declarations[index]?

def module? (table : Table) (name : String) : Option ModuleView :=
  (table.moduleIndex.get? name).bind fun index => table.modules[index]?

/-- The declaration to which a type refers. -/
def referent? (table : Table) : Ty → Option Declaration
  | .declared key => table.get? key
  | _ => none

def globals (table : Table) : List Declaration :=
  table.declarations.filter fun d => d.key.scope == .global

/-- The diagnostics with their count of errors. -/
def log (table : Table) : Diagnostic.Log :=
  .ofList table.diagnostics

def hasErrors (table : Table) : Bool :=
  table.log.hasErrors

end Table

end Overlay
