/-
Identity of signatures.

Two signatures are alike if they differ in names of parameters only, at any depth.  Alike overloads
of one member say the same thing, so one of them is enough.
-/
import Overlay.Ty.Basic

namespace Overlay

mutual

/-- Whether two types are the same but for the names of parameters. -/
def Ty.alike : Ty → Ty → Bool
  | .function ⟨ps, r⟩, .function ⟨qs, q⟩ => Ty.alikeParams ps qs && r.alike q
  | s, t => decide (s = t)
termination_by structural s => s

/-- Whether two lists of parameters are the same but for names. -/
def Ty.alikeParams : List (Param Ty) → List (Param Ty) → Bool
  | [], [] => true
  | ⟨_, s, o, v⟩ :: ps, ⟨_, t, o', v'⟩ :: qs =>
    o == o' && v == v' && s.alike t && Ty.alikeParams ps qs
  | _, _ => false
termination_by structural ps => ps

end

/-- Whether two signatures are the same but for the names of parameters. -/
def Signature.alike (a b : Signature) : Bool :=
  Ty.alikeParams a.params b.params && a.result.alike b.result

@[simp] theorem Ty.alike_function (a b : Signature) :
    (Ty.function a).alike (Ty.function b) = a.alike b := by
  obtain ⟨ps, r⟩ := a
  obtain ⟨qs, q⟩ := b
  simp [Ty.alike, Signature.alike]

end Overlay
