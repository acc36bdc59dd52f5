/-
The text of types and signatures.

A signature is its parameters in brackets, an arrow and its result; a function type is the text of
its signature, but the type of any function at all is called `Function`.
-/
import Overlay.Ty.Basic

namespace Overlay

/-- A parameter with the text of its type: a variadic one shows the list it collects. -/
def Param.withType (p : Param String) : String :=
  if p.variadic then "..." ++ p.name ++ ": " ++ p.type ++ "[]"
  else if p.optional then p.name ++ "?: " ++ p.type
  else p.name ++ ": " ++ p.type

/-- A signature with the texts of its parts. -/
def Callable.joined (params : List String) (result : String) : String :=
  "(" ++ ", ".intercalate params ++ ") => " ++ result

mutual

def Ty.text : Ty → String
  | .any => "any"
  | .string => "string"
  | .void => "void"
  | .function ⟨ps, r⟩ =>
    if (⟨ps, r⟩ : Signature) = Signature.untyped then "Function"
    else Callable.joined (Ty.paramTexts ps) r.text
  | .unresolved name => name
  | .declared key => key.text
termination_by structural t => t

def Ty.paramTexts : List (Param Ty) → List String
  | [] => []
  | ⟨name, t, optional, variadic⟩ :: ps =>
    Param.withType ⟨name, t.text, optional, variadic⟩ :: Ty.paramTexts ps
termination_by structural ps => ps

end

def Param.text (p : Param Ty) : String :=
  Param.withType ⟨p.name, p.type.text, p.optional, p.variadic⟩

def Signature.text (s : Signature) : String :=
  Callable.joined (s.params.map Param.text) s.result.text

theorem Ty.paramTexts_eq_map (ps : List (Param Ty)) : Ty.paramTexts ps = ps.map Param.text := by
  induction ps with
  | nil => rfl
  | cons p ps ih => simp [Ty.paramTexts, Param.text, ih]

theorem Ty.text_function (s : Signature) :
    (Ty.function s).text = if s = Signature.untyped then "Function" else s.text := by
  simp [Ty.text, Ty.paramTexts_eq_map, Signature.text]

end Overlay
