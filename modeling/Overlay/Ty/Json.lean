/-
Types and signatures in JSON.
-/
import Overlay.Ty.Basic
import Overlay.Key.Json

namespace Overlay

/-- A parameter is written as a record, its type being written already. -/
def Param.recordOf (p : Param Json) : Json :=
  .object [("name", .string p.name), ("ty", p.type), ("optional", .bool p.optional),
    ("variadic", .bool p.variadic)]

/-- A signature is written as a record, its parts being written already. -/
def Callable.recordOf (params : List Json) (result : Json) : Json :=
  .object [("parameters", .array params), ("return_type", result)]

mutual

/-- A type is written with a tag; the content is a signature, a name or a key. -/
def Ty.json : Ty → Json
  | .any => .object [("kind", .string "any")]
  | .string => .object [("kind", .string "string")]
  | .void => .object [("kind", .string "void")]
  | .function ⟨ps, r⟩ =>
    .object [("kind", .string "function"),
      ("value", Callable.recordOf (Ty.paramsJson ps) r.json)]
  | .unresolved name => .object [("kind", .string "unresolved"), ("value", .string name)]
  | .declared key => .object [("kind", .string "declared"), ("value", key.json)]
termination_by structural t => t

/-- Parameters as they are written. -/
def Ty.paramsJson : List (Param Ty) → List Json
  | [] => []
  | ⟨name, t, optional, variadic⟩ :: ps =>
    Param.recordOf ⟨name, t.json, optional, variadic⟩ :: Ty.paramsJson ps
termination_by structural ps => ps

end

def Signature.json (s : Signature) : Json :=
  Callable.recordOf (Ty.paramsJson s.params) s.result.json

/-! ### Reading -/

/-- How types are tagged, given the ways to read a signature and a key. -/
def Ty.tagged (signature : Decoder Signature) (key : Decoder Key) : Tagged Ty where
  type := "Type"
  tag := "kind"
  content := "value"
  variants := [
    ("any", "Any", .constant .any),
    ("string", "String", .constant .string),
    ("void", "Void", .constant .void),
    ("function", "Function", .carried fun origin d => (signature origin d).map .function),
    ("unresolved", "Unresolved",
      .carried fun origin d => (Decoder.string origin d).map .unresolved),
    ("declared", "Declared", .carried fun origin d => (key origin d).map .declared)]

def Signature.fields (params : Decoder (List (Param Ty))) (result : Decoder Ty) :
    Fields Signature :=
  Callable.mk <$> Fields.required "parameters" params <*> Fields.required "return_type" result

def Param.fields (type : Decoder Ty) : Fields (Param Ty) :=
  Param.mk <$> Fields.required "name" Decoder.string
    <*> Fields.required "ty" type
    <*> Fields.required "optional" Decoder.boolean
    <*> Fields.required "variadic" Decoder.boolean

mutual

def Ty.decode : Nat → Decoder Ty
  | 0 => fun _ => Decoder.tooDeep "adjacently tagged enum Type"
  | room + 1 => fun origin d =>
    (Ty.tagged (Signature.decode room) (Key.decode room)).decode room origin d
termination_by structural room => room

def Signature.decode : Nat → Decoder Signature
  | 0 => fun _ => Decoder.tooDeep "struct CallableSignature"
  | room + 1 => fun origin d =>
    (Signature.fields (Ty.decodeParams room) (Ty.decode room)).decode
      "struct CallableSignature" origin d
termination_by structural room => room

def Ty.decodeParams : Nat → Decoder (List (Param Ty))
  | 0 => fun _ => Decoder.tooDeep "a sequence"
  | room + 1 => fun origin d => Decoder.items (Ty.decodeParam room) origin d
termination_by structural room => room

def Ty.decodeParam : Nat → Decoder (Param Ty)
  | 0 => fun _ => Decoder.tooDeep "struct Parameter"
  | room + 1 => fun origin d =>
    (Param.fields (Ty.decode room)).decode "struct Parameter" origin d
termination_by structural room => room

end

end Overlay
