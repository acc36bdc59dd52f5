/-
Summaries of tables.

A summary has a line for each interface and, below it, one for each overload of each member.  The
global interfaces come first, then the modules, each with its interfaces; a module in which nothing
has a member is one line.  `Line` is what a line of a summary says.
-/
import Overlay.Table

namespace Overlay

/-- A line of a summary. -/
inductive Line where
  | interface (key : Key)
  /-- An overload of a member, in the declaration with the key. -/
  | overload (key : Key) (member : String) (signature : Signature)
  | module (name : String) (isOpaque : Bool)
deriving DecidableEq

namespace Line

def text : Line → String
  | interface key => "interface " ++ key.text
  | overload _ member signature => "  " ++ member ++ signature.text
  | module name true => "module \"" ++ name ++ "\" (opaque)"
  | module name false => "module \"" ++ name ++ "\""

/-- The text of lines, each of them ended. -/
def render (lines : List Line) : String :=
  String.join (lines.map fun line => line.text ++ "\n")

end Line

def Declaration.lines (d : Declaration) : List Line :=
  .interface d.key :: d.overloads.map fun (name, o) => .overload d.key name o.signature

def ModuleView.lines (view : ModuleView) : List Line :=
  .module view.name view.isOpaque ::
    if view.isOpaque then [] else view.declarations.flatMap Declaration.lines

def Table.summary (table : Table) : List Line :=
  table.globals.flatMap Declaration.lines ++ table.modules.flatMap ModuleView.lines

end Overlay
