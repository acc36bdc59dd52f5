/-
Keys and scopes in JSON.
-/
import Overlay.Key
import Overlay.Json.Basic
import Overlay.Json.Fields
import Overlay.Json.Tagged

namespace Overlay

namespace Scope

/-- A scope is written with a tag; the content is the name of the module. -/
def json : Scope → Json
  | global => .object [("kind", .string "global")]
  | ambient name => .object [("kind", .string "module"), ("name", .string name)]

def tagged : Tagged Scope where
  type := "Scope"
  tag := "kind"
  content := "name"
  variants := [
    ("global", "Global", .constant .global),
    ("module", "Module", .carried fun origin d => (Decoder.string origin d).map .ambient)]

def decode : Nat → Decoder Scope
  | 0 => fun _ => Decoder.tooDeep tagged.expected
  | room + 1 => tagged.decode room

end Scope

namespace Key

def json (key : Key) : Json :=
  .object [("scope", key.scope.json), ("name", .string key.name)]

def decode : Nat → Decoder Key :=
  Fields.record "DeclKey" fun room =>
    Key.mk <$> Fields.required "scope" (Scope.decode room)
      <*> Fields.required "name" Decoder.string

end Key

end Overlay
