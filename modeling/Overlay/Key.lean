/-
Names of declarations.

A declaration stands in the global scope or in the body of an ambient module.  Its `Key`, the
scope together with the name, is what declarations are merged by.  A module declares itself inside
its own body, so that its own key never meets a global of the same name.
-/

namespace Overlay

/-- Where a name is declared. -/
inductive Scope where
  | global
  /-- The body of the ambient module of that name. -/
  | ambient (name : String)
deriving DecidableEq, Ord, Repr

/-- A name in a scope.  Keys are ordered by scope, the global one first, then by name. -/
structure Key where
  scope : Scope
  name : String
deriving DecidableEq, Ord, Repr

namespace Scope

/-- The module whose body this is. -/
def module? : Scope → Option String
  | global => none
  | ambient name => some name

/-- The scope in words. -/
def text : Scope → String
  | global => "global"
  | ambient name => "module \"" ++ name ++ "\""

end Scope

namespace Key

def ofGlobal (name : String) : Key :=
  ⟨.global, name⟩

/-- The key under which a module declares itself. -/
def own (name : String) : Key :=
  ⟨.ambient name, name⟩

/-- Whether a module declares itself under this key. -/
def isOwn (key : Key) : Bool :=
  key.scope.module? == some key.name

/-- The key as it is shown: the name, behind its module if it has one. -/
def text (key : Key) : String :=
  match key.scope with
  | .global => key.name
  | .ambient name => "\"" ++ name ++ "\"." ++ key.name

end Key

end Overlay
