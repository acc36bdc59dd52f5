/-
Diagnostics in JSON.
-/
import Overlay.Diagnostic.Basic
import Overlay.Site.Json

namespace Overlay

namespace Severity

def choices : List (String × Severity) :=
  [warning, error, suggestion, message].map fun s => (s.text, s)

def decode (room : Nat) : Decoder Severity :=
  Decoder.choice choices room

end Severity

namespace Diagnostic

namespace Kind

def name : Kind → String
  | malformedSignature => "malformedSignature"
  | unknownType => "unknownType"
  | overloadAmbiguity => "overloadAmbiguity"

def choices : List (String × Kind) :=
  [malformedSignature, unknownType, overloadAmbiguity].map fun k => (k.name, k)

def decode (room : Nat) : Decoder Kind :=
  Decoder.choice choices room

end Kind

namespace Related

def json (r : Related) : Json :=
  .object [("site", r.site.json), ("message_text", .string r.message)]

def decode : Nat → Decoder Related :=
  Fields.record "DiagnosticRelatedInformation" fun room =>
    Related.mk <$> Fields.required "site" (Site.decode room)
      <*> Fields.required "message_text" Decoder.string

end Related

/-- A diagnostic is written as a record, without its related sites if there are none. -/
def json (d : Diagnostic) : Json :=
  .object <|
    [("kind", .string d.kind.name), ("code", .number d.code.toNat),
      ("category", .string d.severity.text), ("site", d.site.json),
      ("message_text", .string d.message)] ++
    if d.related.isEmpty then []
    else [("related_information", .array (d.related.map Related.json))]

def decode : Nat → Decoder Diagnostic :=
  Fields.record "Diagnostic" fun room =>
    Diagnostic.mk <$> Fields.required "kind" (Kind.decode room)
      <*> Fields.required "code" Decoder.word
      <*> Fields.required "category" (Severity.decode room)
      <*> Fields.required "site" (Site.decode room)
      <*> Fields.required "message_text" Decoder.string
      <*> Fields.withDefault "related_information" (Decoder.list Related.decode room) []

end Diagnostic

end Overlay
