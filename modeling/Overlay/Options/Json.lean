/-
Options in JSON.
-/
import Overlay.Options
import Overlay.Json.Basic
import Overlay.Json.Fields

namespace Overlay.Options

def json (options : Options) : Json :=
  .object [("reportOverloadAmbiguity", .bool options.reportOverloads),
    ("resolveAcrossModules", .bool options.acrossModules),
    ("libs", .strings options.libraries)]

/-- Reads options; what is absent has its standard value. -/
def decode : Nat → Decoder Options :=
  Fields.record "MergeOptions" fun room =>
    Options.mk
      <$> Fields.withDefault "reportOverloadAmbiguity" Decoder.boolean standard.reportOverloads
      <*> Fields.withDefault "resolveAcrossModules" Decoder.boolean standard.acrossModules
      <*> Fields.withDefault "libs" (Decoder.list (fun _ => Decoder.string) room)
        standard.libraries

/-- The options that are written in a text. -/
def ofText (text : String) : Except Failure Options :=
  Decoder.ofText decode text

end Overlay.Options
