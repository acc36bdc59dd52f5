/-
Merging the declarations of a key.

All declarations of a key are merged into one.  A declaration with a malformed signature takes no
part in this; each such signature is reported.  If only modules without a body are left, the result
is one, too.  Otherwise it is an interface with the members of all, a member of a name having one
overload for each signature that is not alike an earlier one.  A second signature and any further
one is reported, if the options ask for it.  A key without a sound declaration is left out.
-/
import Overlay.Assoc
import Overlay.Diagnostic.Basic
import Overlay.Options
import Overlay.Registry
import Overlay.Ty.Identity
import Overlay.Ty.Shape
import Overlay.Ty.Text

namespace Overlay

/-! ### Sound declarations -/

/-- Whether all signatures of a declaration are well formed. -/
def Declaration.isSound (d : Declaration) : Bool :=
  d.overloads.all fun (_, o) => o.signature.flaw?.isNone

/-- The reports on the malformed signatures of a declaration. -/
def Declaration.malformed (d : Declaration) : List Diagnostic :=
  d.overloads.filterMap fun (name, o) =>
    o.signature.flaw?.map fun flaw =>
      .ofKind .malformedSignature o.site [d.key.member name, flaw.text, d.key.text]

/-! ### Overload lists -/

namespace Overload

/-- Whether an overload says nothing new beside others. -/
def isIn (o : Overload) (others : List Overload) : Bool :=
  others.any fun other => other.signature.alike o.signature

/-- Adds an overload at the end, if it says something new. -/
def addNew (others : List Overload) (o : Overload) : List Overload :=
  if o.isIn others then others else others ++ [o]

/-- The report on an overload that comes to others as a further one. -/
def ambiguity (key : Key) (name : String) (o leading : Overload) (others : List Overload) :
    Diagnostic :=
  (Diagnostic.ofKind .overloadAmbiguity o.site
    [key.member name, o.signature.text, toString (others.length + 1)]).withRelated
      leading.site
      ("Highest-priority overload '" ++ leading.signature.text ++ "' is declared here.")

/-- The report on an overload that comes to others, if it is a further one. -/
def ambiguity? (key : Key) (name : String) (o : Overload) (others : List Overload) :
    Option Diagnostic :=
  match others with
  | [] => none
  | leading :: _ => if o.isIn others then none else some (o.ambiguity key name leading others)

end Overload

/-! ### Merging -/

namespace Merge

/-- The overload lists by member names, and the reports on them. -/
structure State where
  members : Assoc String (List Overload)
  reports : List Diagnostic

/-- Takes in an overload of a member. -/
def State.add (key : Key) (state : State) : String × Overload → State
  | (name, o) =>
    -- the report counts the overloads before this one is added
    let others := (state.members.get? name).getD []
    ⟨state.members.alter name fun others? => Overload.addNew (others?.getD []) o,
      state.reports ++ (o.ambiguity? key name others).toList⟩

/-- Takes in an overload of a member, and keeps the report on it if the options ask for it. -/
def State.take (options : Options) (key : Key) (state : State) (p : String × Overload) : State :=
  let added := state.add key p
  if options.reportOverloads then added else { added with reports := state.reports }

/-- The members of sound declarations, and the reports on them. -/
def members (options : Options) (key : Key) (sound : List Declaration) : State :=
  (sound.flatMap Declaration.overloads).foldl (State.take options key) ⟨[], []⟩

/-- One declaration in the place of sound ones. -/
def join (options : Options) (key : Key) (sound : List Declaration) : Declaration where
  key := key
  body :=
    -- a stub beside an interface has no members to give, only its site
    if sound.all Declaration.isStub then .stub
    else .interface
      ((members options key sound).members.map fun (name, overloads) => ⟨name, overloads⟩)
  sites := sound.filterMap Declaration.site?

/-- The declaration of a key in the place of all that are registered with it, if one of them is
sound. -/
def declaration? (options : Options) (key : Key) (sites : List Declaration) :
    Option Declaration :=
  match sites.filter Declaration.isSound with
  | [] => none
  | sound => some (join options key sound)

/-- The reports on the declarations of a key: first those on malformed signatures, then those on
further overloads. -/
def reports (options : Options) (key : Key) (sites : List Declaration) : List Diagnostic :=
  sites.flatMap Declaration.malformed ++
    (members options key (sites.filter Declaration.isSound)).reports

end Merge

/-- Declarations of which no two have the same key, and what was reported on the way. -/
structure Merged where
  declarations : List Declaration
  diagnostics : List Diagnostic
deriving DecidableEq

namespace Merged

/-- The merged declarations of a registry, in the order of its keys. -/
def ofRegistry (options : Options) (registry : Registry) : Merged where
  declarations :=
    registry.entries.filterMap fun (key, sites) => Merge.declaration? options key sites
  diagnostics := registry.entries.flatMap fun (key, sites) => Merge.reports options key sites

def keys (merged : Merged) : List Key :=
  merged.declarations.map Declaration.key

end Merged

end Overlay
