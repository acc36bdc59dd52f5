/-
Looking up names.

A name in a signature is looked up among the keys of the merged declarations: first in the scope of
the declaration that it stands in, then in the global scope, and then, if the options allow it, in
the bodies of all modules in order.  A name that is found becomes a reference to that declaration,
any other becomes `any` and is reported once for each overload.  Overloads that have become alike by
this collapse into the first of them, and what was reported on the site of one that is gone is
withdrawn.

All that a lookup needs is taken from the keys beforehand, and each overload is answered from a
list in which every name of it is looked up once.
-/
import Overlay.Merge
import Overlay.Ty.References

namespace Overlay

/-! ### Lookup -/

/-- What names stand for. -/
structure Lookup where
  keys : List Key
  /-- For each name that is declared in the body of a module, the first such key. -/
  fallback : Assoc String Key
  acrossModules : Bool

namespace Lookup

/-- The first key of each name among those in the bodies of modules. -/
def fallbackOf (keys : List Key) : Assoc String Key :=
  (keys.filter fun key => key.scope != .global).foldl
    (fun fallback key => fallback.alter key.name fun first? => first?.getD key) []

/-- The lookup among keys. -/
def ofKeys (keys : List Key) (acrossModules : Bool) : Lookup :=
  ⟨keys, fallbackOf keys, acrossModules⟩

/-- The key of the declaration that a name in a scope stands for. -/
def target? (lookup : Lookup) (scope : Scope) (name : String) : Option Key :=
  if ⟨scope, name⟩ ∈ lookup.keys then some ⟨scope, name⟩
  -- in the global scope that was the global key already
  else if scope ≠ .global ∧ .ofGlobal name ∈ lookup.keys then some (.ofGlobal name)
  else if lookup.acrossModules then lookup.fallback.get? name
  else none

/-- The names with the keys that they stand for in a scope; a name that came before is not looked
up again. -/
def answers (lookup : Lookup) (scope : Scope) (names : List String) :
    Assoc String (Option Key) :=
  names.foldl (fun answers name =>
    answers.alter name fun answer? => answer?.getD (lookup.target? scope name)) []

/-- The type that comes in the place of a name. -/
def typeOf (answers : Assoc String (Option Key)) (name : String) : Ty :=
  (answers.get? name).join.elim .any .declared

end Lookup

/-! ### Overloads -/

namespace Overload

/-- What the names in an overload stand for. -/
def answers (lookup : Lookup) (scope : Scope) (o : Overload) : Assoc String (Option Key) :=
  lookup.answers scope o.signature.references

/-- The overload with its names looked up. -/
def resolve (lookup : Lookup) (scope : Scope) (o : Overload) : Overload :=
  { o with signature := o.signature.replace (Lookup.typeOf (o.answers lookup scope)) }

/-- The names in an overload that stand for nothing, each once. -/
def unknown (lookup : Lookup) (scope : Scope) (o : Overload) : List String :=
  Assoc.keys ((o.answers lookup scope).filter fun (_, answer) => answer.isNone)

/-- The reports on names in an overload that stand for nothing. -/
def unknownReports (lookup : Lookup) (key : Key) (member : String) (o : Overload) :
    List Diagnostic :=
  (o.unknown lookup key.scope).map fun name =>
    .ofKind .unknownType o.site [name, key.member member]

/-- Splits a list into overloads that say something new and those that are alike earlier ones. -/
def split (os : List Overload) : List Overload × List Overload :=
  os.foldl (fun (kept, gone) o =>
    if o.isIn kept then (kept, gone ++ [o]) else (kept ++ [o], gone)) ([], [])

end Overload

/-! ### Members and declarations -/

namespace Member

/-- Whether there is a name to look up in a member. -/
def hasReferences (m : Member) : Bool :=
  m.overloads.any fun o => !o.signature.references.isEmpty

/-- The overloads of a member with their names looked up: those that are kept and those that
collapse into them.  Where no name was looked up, or there is only one overload, nothing can have
become alike. -/
def resolved (lookup : Lookup) (scope : Scope) (m : Member) : List Overload × List Overload :=
  let overloads := m.overloads.map (Overload.resolve lookup scope)
  if m.hasReferences && m.isOverloaded then Overload.split overloads else (overloads, [])

def resolve (lookup : Lookup) (scope : Scope) (m : Member) : Member :=
  { m with overloads := (m.resolved lookup scope).1 }

/-- The sites of overloads that collapse into earlier ones. -/
def collapsedSites (lookup : Lookup) (scope : Scope) (m : Member) : List Site :=
  (m.resolved lookup scope).2.map Overload.site

end Member

namespace Declaration

def resolve (lookup : Lookup) (d : Declaration) : Declaration :=
  { d with body := match d.body with
    | .stub => .stub
    | .interface members => .interface (members.map (Member.resolve lookup d.key.scope)) }

/-- The reports on names in a declaration that stand for nothing. -/
def unknownReports (lookup : Lookup) (d : Declaration) : List Diagnostic :=
  d.overloads.flatMap fun (name, o) => o.unknownReports lookup d.key name

/-- The sites of overloads in a declaration that collapse into earlier ones. -/
def collapsedSites (lookup : Lookup) (d : Declaration) : List Site :=
  d.members.flatMap (Member.collapsedSites lookup d.key.scope)

end Declaration

/-- Whether a report stands, when overloads at some sites are gone. -/
def Diagnostic.stands (gone : List Site) (d : Diagnostic) : Bool :=
  d.kind != .overloadAmbiguity || !(d.site ∈ gone)

namespace Merged

/-- What names in merged declarations stand for. -/
def lookup (merged : Merged) (options : Options) : Lookup :=
  .ofKeys merged.keys options.acrossModules

/-- The declarations with their names looked up.  The reports on this come behind the earlier
ones. -/
def resolve (merged : Merged) (options : Options) : Merged :=
  let lookup := merged.lookup options
  let gone := merged.declarations.flatMap (Declaration.collapsedSites lookup)
  -- a site can have several overloads, and reports on all of them are withdrawn with one
  ⟨merged.declarations.map (Declaration.resolve lookup),
    (merged.diagnostics ++ merged.declarations.flatMap (Declaration.unknownReports lookup)).filter
      (Diagnostic.stands gone)⟩

end Merged

end Overlay
