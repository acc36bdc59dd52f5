/-
Declarations, their members, and the overloads of a member.

A declaration is raw, as one record list gives it, with one site and mostly one overload in each
member; or it is merged from several, with the sites of all and, in each member, one overload for
each signature, in order of priority.
-/
import Overlay.Site
import Overlay.Ty.Fit

namespace Overlay

/-- A signature of a member, with the site that it comes from. -/
structure Overload where
  signature : Signature
  site : Site
deriving DecidableEq

/-- A member of an interface; it can be called.  The overloads are in order of priority. -/
structure Member where
  name : String
  overloads : List Overload
deriving DecidableEq

/-- What a declaration says. -/
inductive Body where
  /-- That a module exists, and no more. -/
  | stub
  | interface (members : List Member)
deriving DecidableEq

/-- A declared name. -/
structure Declaration where
  key : Key
  body : Body
  /-- The sites that contribute to it, in the order in which they were registered. -/
  sites : List Site
deriving DecidableEq

namespace Member

def single (name : String) (signature : Signature) (site : Site) : Member :=
  ⟨name, [⟨signature, site⟩]⟩

def signatures (m : Member) : List Signature :=
  m.overloads.map Overload.signature

/-- The signature of highest priority. -/
def leading? (m : Member) : Option Signature :=
  m.signatures.head?

def isOverloaded (m : Member) : Bool :=
  decide (1 < m.overloads.length)

/-- The first signature that a call with arguments of these types fits. -/
def call? (m : Member) (arguments : List Ty) : Option Signature :=
  (Signature.choose? m.signatures arguments).map Prod.snd

end Member

namespace Declaration

/-- A module that is declared without a body. -/
def stub (name : String) (site : Site) : Declaration :=
  ⟨.own name, .stub, [site]⟩

def interface (key : Key) (site : Site) (members : List Member) : Declaration :=
  ⟨key, .interface members, [site]⟩

/-- Whether only a module's existence is declared. -/
def isStub (d : Declaration) : Bool :=
  d.body == .stub

/-- The members; a stub has none. -/
def members (d : Declaration) : List Member :=
  match d.body with
  | .stub => []
  | .interface members => members

/-- The first member of a name. -/
def member? (d : Declaration) (name : String) : Option Member :=
  d.members.find? fun m => m.name == name

def site? (d : Declaration) : Option Site :=
  d.sites.head?

/-- Adds a member at the end; a stub turns into an interface. -/
def push (d : Declaration) (m : Member) : Declaration :=
  { d with body := .interface (d.members ++ [m]) }

/-- All overloads of all members, each with the name of its member. -/
def overloads (d : Declaration) : List (String × Overload) :=
  d.members.flatMap fun m => m.overloads.map fun o => (m.name, o)

end Declaration

/-- The name of a member behind the key of its declaration. -/
def Key.member (key : Key) (name : String) : String :=
  key.text ++ "." ++ name

end Overlay
