/-
The registry of declarations.

A registry keeps each declaration that is registered with it, under the key of the declaration.
Nothing is merged or checked here, and nothing is ever replaced: the keys stand in the order in
which they came first, and the declarations of a key in the order in which they came.
-/
import Overlay.Fragment

namespace Overlay

/-- Raw declarations by key, and how many of them there are. -/
structure Registry where
  entries : Assoc Key (List Declaration)
  siteCount : Nat
deriving DecidableEq

namespace Registry

def empty : Registry :=
  ⟨[], 0⟩

/-- Adds a declaration at the end of those with its key. -/
def register (registry : Registry) (d : Declaration) : Registry :=
  ⟨registry.entries.alter d.key fun sites? => sites?.getD [] ++ [d], registry.siteCount + 1⟩

/-- Adds declarations one after the other. -/
def extend (registry : Registry) (ds : List Declaration) : Registry :=
  ds.foldl register registry

/-- The registry of declarations. -/
def ofList (ds : List Declaration) : Registry :=
  empty.extend ds

def addFragment (registry : Registry) (fragment : Fragment) : Registry :=
  registry.extend fragment.declarations

/-- The keys in the order in which they came first. -/
def keys (registry : Registry) : List Key :=
  registry.entries.keys

/-- The declarations with a key, in the order in which they came. -/
def sites (registry : Registry) (key : Key) : List Declaration :=
  (registry.entries.get? key).getD []

def size (registry : Registry) : Nat :=
  registry.entries.length

end Registry

end Overlay
