/-
Names in types that are still to be looked up.

`Ty.references` lists the names in a type, parameters before the result and nested types in place.
`Ty.replaceM` puts a type in the place of each name, asking for the types in that same order, and
leaves the types it is given as they are.
-/
import Overlay.Ty.Basic

namespace Overlay

mutual

/-- The unresolved names in a type, in order, each as often as it occurs. -/
def Ty.references : Ty → List String
  | .unresolved name => [name]
  | .function ⟨ps, r⟩ => Ty.paramReferences ps ++ r.references
  | .any | .string | .void | .declared _ => []
termination_by structural t => t

/-- The unresolved names in the types of parameters. -/
def Ty.paramReferences : List (Param Ty) → List String
  | [] => []
  | ⟨_, t, _, _⟩ :: ps => t.references ++ Ty.paramReferences ps
termination_by structural ps => ps

end

mutual

/-- The type with another type in the place of each unresolved name. -/
def Ty.replaceM {m : Type → Type} [Monad m] (f : String → m Ty) : Ty → m Ty
  | .unresolved name => f name
  | .function ⟨ps, r⟩ => do
    let ps ← Ty.replaceParamsM f ps
    let r ← r.replaceM f
    pure (.function ⟨ps, r⟩)
  | t => pure t
termination_by structural t => t

/-- The parameters with other types in the place of unresolved names. -/
def Ty.replaceParamsM {m : Type → Type} [Monad m] (f : String → m Ty) :
    List (Param Ty) → m (List (Param Ty))
  | [] => pure []
  | ⟨name, t, optional, variadic⟩ :: ps => do
    let t ← t.replaceM f
    let ps ← Ty.replaceParamsM f ps
    pure (⟨name, t, optional, variadic⟩ :: ps)
termination_by structural ps => ps

end

/-- The type with `f name` in the place of each unresolved `name`. -/
def Ty.replace (f : String → Ty) (t : Ty) : Ty :=
  Id.run (t.replaceM fun name => pure (f name))

namespace Signature

/-- The unresolved names in a signature, in order. -/
def references (s : Signature) : List String :=
  s.params.flatMap (·.type.references) ++ s.result.references

/-- The signature with `f name` in the place of each unresolved `name`. -/
def replace (f : String → Ty) (s : Signature) : Signature :=
  ⟨s.params.map fun p => { p with type := p.type.replace f }, s.result.replace f⟩

end Signature

/-! ### The parts of a function type -/

namespace Ty

theorem paramReferences_eq_flatMap (ps : List (Param Ty)) :
    paramReferences ps = ps.flatMap (·.type.references) := by
  induction ps with
  | nil => rfl
  | cons p ps ih => simp [paramReferences, ih]

@[simp] theorem references_function (s : Signature) :
    (function s).references = s.references := by
  simp [references, paramReferences_eq_flatMap, Signature.references]

@[simp] theorem replace_unresolved (f : String → Ty) (name : String) :
    (unresolved name).replace f = f name := by
  simp [replace, replaceM]

theorem replaceParamsM_eq_map (f : String → Ty) (ps : List (Param Ty)) :
    Id.run (replaceParamsM (fun name => pure (f name)) ps)
      = ps.map fun p => { p with type := p.type.replace f } := by
  induction ps with
  | nil => rfl
  | cons p ps ih => simpa [replaceParamsM, replace] using ih

@[simp] theorem replace_function (f : String → Ty) (s : Signature) :
    (function s).replace f = function (s.replace f) := by
  have h := replaceParamsM_eq_map f s.params
  simp [replace, replaceM, Signature.replace] at h ⊢
  exact h

end Ty

end Overlay
