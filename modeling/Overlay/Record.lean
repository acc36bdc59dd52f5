/-
Records of declarations.

A reader of declaration files hands over one record for each module that is declared without a
body, and one for each member of an interface.  In a record, types stand as they are written:
as a name, or as a function of written types.  Where no type is written, `any` is meant.
`WrittenSignature.lower` turns a written signature into a signature.
-/
import Overlay.Ty.Basic

namespace Overlay

/-- A type as it is written. -/
inductive WrittenType where
  | named (text : String)
  | function (callable : Callable (Option WrittenType))

/-- Parameters and a result as they are written, with types or without. -/
abbrev WrittenSignature : Type :=
  Callable (Option WrittenType)

/-- A record of a declaration. -/
inductive Record where
  | stub (name : String)
  /-- A member of an interface is declared, in the body of a module if one is given. -/
  | member (interfaceName memberName : String) (signature : WrittenSignature)
      (home? : Option String)

/-! ### Lowering -/

/-- The name of the element type, where a list type is written. -/
def elementName (name : String) : String :=
  match name.toList.reverse with
  | ']' :: '[' :: rest => String.ofList rest.reverse
  | _ => name

mutual

/-- The type that is written. -/
def WrittenType.lower : WrittenType → Ty
  | .named text => .ofName text
  | .function ⟨ps, none⟩ => .function ⟨WrittenType.lowerParams ps, .any⟩
  | .function ⟨ps, some r⟩ => .function ⟨WrittenType.lowerParams ps, r.lower⟩
termination_by structural a => a

/-- The parameters that are written.  A variadic parameter is annotated with the list it collects;
its type is that of the elements. -/
def WrittenType.lowerParams : List (Param (Option WrittenType)) → List (Param Ty)
  | [] => []
  | ⟨name, none, optional, variadic⟩ :: ps =>
    ⟨name, .any, optional, variadic⟩ :: WrittenType.lowerParams ps
  -- only a name is taken for that of a list; a written function is one element
  | ⟨name, some (.named text), optional, true⟩ :: ps =>
    ⟨name, .ofName (elementName text), optional, true⟩ :: WrittenType.lowerParams ps
  | ⟨name, some a, optional, variadic⟩ :: ps =>
    ⟨name, a.lower, optional, variadic⟩ :: WrittenType.lowerParams ps
termination_by structural ps => ps

end

def WrittenSignature.lower (w : WrittenSignature) : Signature :=
  ⟨WrittenType.lowerParams w.params, w.result.elim .any WrittenType.lower⟩

/-- The key of the declaration to which a record contributes. -/
def Record.key : Record → Key
  | stub name => .own name
  | member interfaceName _ _ home? => ⟨home?.elim .global .ambient, interfaceName⟩

end Overlay
