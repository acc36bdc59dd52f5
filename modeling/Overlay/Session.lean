/-
Sessions.

A session collects fragments and builds tables from them; a build leaves it as it is.  A board
holds the table that readers are given; a reader keeps the one it was given when another is put up.
-/
import Overlay.Library
import Overlay.Table

namespace Overlay

/-- Options, and what is registered so far. -/
structure Session where
  options : Options
  registry : Registry

namespace Session

/-- A session in which the libraries of the options are registered, or the first of them that there
is not. -/
def start (options : Options) : Except Library.Unknown Session :=
  (Library.load options.libraries).map fun fragments =>
    ⟨options, fragments.foldl Registry.addFragment .empty⟩

def bare : Session :=
  ⟨.bare, .empty⟩

def add (session : Session) (fragment : Fragment) : Session :=
  { session with registry := session.registry.addFragment fragment }

def build (session : Session) : Table :=
  .ofRegistry session.options session.registry

end Session

/-- The place where a table is put up for readers. -/
structure Board where
  current : Table

namespace Board

def blank : Board :=
  ⟨.empty⟩

/-- Puts up a table; the one that was there is taken down. -/
def publish (_ : Board) (table : Table) : Board :=
  ⟨table⟩

end Board

end Overlay
