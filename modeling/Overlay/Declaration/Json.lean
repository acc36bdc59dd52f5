/-
Declarations in JSON.
-/
import Overlay.Declaration
import Overlay.Site.Json
import Overlay.Ty.Json

namespace Overlay

def Overload.json (o : Overload) : Json :=
  .object [("signature", o.signature.json), ("site", o.site.json)]

def Member.json (m : Member) : Json :=
  .object [("name", .string m.name), ("overloads", .array (m.overloads.map Overload.json))]

/-- What a declaration says is written with a tag beside its content. -/
def Body.json : Body → Json
  | .stub => .object [("kind", .string "moduleStub")]
  | .interface members =>
    .object [("kind", .string "interface"), ("members", .array (members.map Member.json))]

def Declaration.json (d : Declaration) : Json :=
  .object [("name", .string d.key.name), ("scope", d.key.scope.json), ("kind", d.body.json),
    ("sites", .array (d.sites.map Site.json))]

end Overlay
