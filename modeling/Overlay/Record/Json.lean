/-
Records in JSON.

A type is written without a tag, as a string or as a function, so it is read as a whole
first and then tried as one and the other; if it is neither, only that is reported.
-/
import Overlay.Record
import Overlay.Json.Basic
import Overlay.Json.Labelled

namespace Overlay

/-! ### Writing -/

/-- A parameter is written as a record, its type being written already. -/
def Param.writtenRecordOf (p : Param Json) : Json :=
  .object [("name", .string p.name), ("typeRef", p.type), ("optional", .bool p.optional),
    ("variadic", .bool p.variadic)]

/-- A function is written as a record, its parts being written already. -/
def WrittenType.recordOf (params : List Json) (result : Json) : Json :=
  .object [("parameters", .array params), ("returnTypeRef", result)]

mutual

/-- A name is written as a string, a function as a record. -/
def WrittenType.json : WrittenType → Json
  | .named text => .string text
  | .function ⟨ps, none⟩ => WrittenType.recordOf (WrittenType.paramsJson ps) .null
  | .function ⟨ps, some r⟩ => WrittenType.recordOf (WrittenType.paramsJson ps) r.json
termination_by structural a => a

/-- Parameters as they are written. -/
def WrittenType.paramsJson : List (Param (Option WrittenType)) → List Json
  | [] => []
  | ⟨name, none, optional, variadic⟩ :: ps =>
    Param.writtenRecordOf ⟨name, .null, optional, variadic⟩ :: WrittenType.paramsJson ps
  | ⟨name, some a, optional, variadic⟩ :: ps =>
    Param.writtenRecordOf ⟨name, a.json, optional, variadic⟩ :: WrittenType.paramsJson ps
termination_by structural ps => ps

end

/-- A record is written with its label in front, and with its module only if it has one. -/
def Record.json : Record → Json
  | stub name => .object [("kind", .string "moduleStub"), ("moduleName", .string name)]
  | member interfaceName memberName signature home? =>
    .object <|
      [("kind", .string "interfaceMember"), ("interfaceName", .string interfaceName),
        ("memberName", .string memberName),
        ("parameters", .array (WrittenType.paramsJson signature.params)),
        ("returnTypeRef", .optional (signature.result.map WrittenType.json))] ++
      home?.toList.map fun name => ("module", .string name)

/-! ### Reading -/

def WrittenType.functionFields (params : Decoder (List (Param (Option WrittenType))))
    (result : Decoder WrittenType) : Fields WrittenSignature :=
  Callable.mk <$> Fields.withDefault "parameters" params []
    <*> Fields.withDefault "returnTypeRef" (Decoder.optional result) none

def WrittenType.paramFields (type : Decoder WrittenType) : Fields (Param (Option WrittenType)) :=
  Param.mk <$> Fields.required "name" Decoder.string
    <*> Fields.withDefault "typeRef" (Decoder.optional type) none
    <*> Fields.withDefault "optional" Decoder.boolean false
    <*> Fields.withDefault "variadic" Decoder.boolean false

/-- Neither of the forms of a written type. -/
def WrittenType.noForm : Except Failure WrittenType :=
  Decoder.refuse (.noForm "TypeRef")

mutual

/-- Reads a written type that was held. -/
def WrittenType.decodeHeld : Nat → Decoder WrittenType
  | 0 => fun _ d =>
    match d with
    | .string text => .ok (.named text)
    | _ => WrittenType.noForm
  | room + 1 => fun _ d =>
    match d with
    | .string text => .ok (.named text)
    | d =>
      match (WrittenType.functionFields (WrittenType.decodeParams room)
          (WrittenType.decodeHeld room)).decode "struct FunctionTypeRef" .held d with
      | .ok callable => .ok (.function callable)
      | .error _ => WrittenType.noForm
termination_by structural room => room

def WrittenType.decodeParams : Nat → Decoder (List (Param (Option WrittenType)))
  | 0 => fun _ => Decoder.tooDeep "a sequence"
  | room + 1 => fun origin d => Decoder.items (WrittenType.decodeParam room) origin d
termination_by structural room => room

def WrittenType.decodeParam : Nat → Decoder (Param (Option WrittenType))
  | 0 => fun _ => Decoder.tooDeep "struct ParameterRecord"
  | room + 1 => fun origin d =>
    (WrittenType.paramFields (WrittenType.decodeHeld room)).decode "struct ParameterRecord" origin d
termination_by structural room => room

end

/-- Reads a written type: first it is looked at as a whole. -/
def WrittenType.decode (room : Nat) : Decoder WrittenType := fun _ d => do
  Decoder.proceed (d.flaw? room)
  WrittenType.decodeHeld room .held d

namespace Record

def stubFields : Fields Record :=
  Record.stub <$> Fields.required "moduleName" Decoder.string

def memberFields (room : Nat) : Fields Record :=
  (fun interfaceName memberName params result home? =>
      Record.member interfaceName memberName ⟨params, result⟩ home?)
    <$> Fields.required "interfaceName" Decoder.string
    <*> Fields.required "memberName" Decoder.string
    <*> Fields.withDefault "parameters" (WrittenType.decodeParams room) []
    <*> Fields.withDefault "returnTypeRef" (Decoder.optional (WrittenType.decodeHeld room)) none
    <*> Fields.withDefault "module" (Decoder.optional Decoder.string) none

/-- How records are labelled. -/
def labelled (room : Nat) : Labelled Record where
  type := "DeclarationRecord"
  label := "kind"
  kinds := [
    ("moduleStub", stubFields.decode "struct variant DeclarationRecord::ModuleStub"),
    ("interfaceMember",
      (memberFields room).decode "struct variant DeclarationRecord::InterfaceMember")]

def decode : Nat → Decoder Record
  | 0 => fun _ => Decoder.tooDeep (labelled 0).expected
  | room + 1 => (labelled room).decode room

end Record

end Overlay
