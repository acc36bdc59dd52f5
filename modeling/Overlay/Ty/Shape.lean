/-
The shape of a parameter list.

Required parameters come first, then optional ones, and a variadic one can only be the last.  The
same holds inside every function type.  `Signature.flaw?` is the first offence against this in the
order in which a signature is read: its parameters one after the other, each with what is inside
its type; then the place of the variadic one; then the result.
-/
import Overlay.Ty.Basic

namespace Overlay

/-- An offence against the shape of a parameter list. -/
inductive Flaw where
  /-- A required parameter behind one that can be omitted. -/
  | requiredAfterOptional (parameter after : String)
  /-- A second variadic parameter. -/
  | repeatedVariadic (parameter first : String)
  /-- A variadic parameter that is not the last. -/
  | variadicNotLast (parameter : String)
deriving DecidableEq, Repr

/-- The offence in words. -/
def Flaw.text : Flaw → String
  | requiredAfterOptional parameter after =>
    "required parameter '" ++ parameter ++ "' cannot follow optional parameter '" ++ after ++ "'"
  | repeatedVariadic parameter first =>
    "rest parameter '" ++ parameter ++ "' duplicates rest parameter '" ++ first ++ "'"
  | variadicNotLast parameter => "rest parameter '" ++ parameter ++ "' must be the last parameter"

/-- What is wrong with a parameter behind others, of which the first that can be omitted and the
first variadic one are known. -/
def Param.flaw? {α : Type} (p : Param α) (omittable variadic : Option String) : Option Flaw :=
  if p.variadic then variadic.map (.repeatedVariadic p.name)
  else if p.optional then none
  else omittable.map (.requiredAfterOptional p.name)

/-- The first variadic parameter, if there are others behind it. -/
def Callable.misplaced? {α : Type} (params : List (Param α)) : Option Flaw :=
  match params.dropWhile fun p => !p.variadic with
  | p :: _ :: _ => some (.variadicNotLast p.name)
  | _ => none

mutual

/-- The first flaw in the function types inside a type. -/
def Ty.flaw? : Ty → Option Flaw
  | .function ⟨ps, r⟩ =>
    -- the whole list is looked at when each parameter passes, function types inside them included
    (Ty.paramsFlaw? none none ps).or ((Callable.misplaced? ps).or r.flaw?)
  | .any | .string | .void | .unresolved _ | .declared _ => none
termination_by structural t => t

/-- The first flaw in the parameters that follow others. -/
def Ty.paramsFlaw? (omittable variadic : Option String) : List (Param Ty) → Option Flaw
  | [] => none
  | ⟨name, t, isOptional, isVariadic⟩ :: ps =>
    let p : Param Ty := ⟨name, t, isOptional, isVariadic⟩
    (p.flaw? omittable variadic).or <| t.flaw?.or <|
      Ty.paramsFlaw? (omittable.or (if p.omittable then some name else none))
        (variadic.or (if isVariadic then some name else none)) ps
termination_by structural ps => ps

end

theorem Ty.flaw?_function (s : Signature) : (function s).flaw?
    = (paramsFlaw? none none s.params).or ((Callable.misplaced? s.params).or s.result.flaw?) := by
  obtain ⟨ps, r⟩ := s
  rfl

/-- The first flaw of a signature. -/
def Signature.flaw? (s : Signature) : Option Flaw :=
  (Ty.function s).flaw?

end Overlay
