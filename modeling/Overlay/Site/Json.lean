/-
Sites in JSON.
-/
import Overlay.Site
import Overlay.Json.Basic
import Overlay.Json.Fields

namespace Overlay.Site

def json (site : Site) : Json :=
  .object [("file", .string site.file), ("ordinal", .number site.ordinal.toNat)]

def decode : Nat → Decoder Site :=
  Fields.record "DeclarationSite" fun _ =>
    Site.mk <$> Fields.required "file" Decoder.string
      <*> Fields.required "ordinal" Decoder.word

end Overlay.Site
