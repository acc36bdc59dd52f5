/-
Types and signatures.

A `Callable α` is a list of parameters and a result, each annotated with an `α`.  A `Signature` is
annotated with types, and a type can again be a function of some signature.

* `Ty.induction` — a property of all types that a function type inherits from its parameters and
  its result;
* `Ty.beq_iff_eq` — types can be compared.
-/
import Overlay.Key

namespace Overlay

/-- A parameter annotated with an `α`. -/
structure Param (α : Type) where
  name : String
  type : α
  /-- The argument may be left off. -/
  optional : Bool
  /-- The parameter takes all further arguments, each of the annotated type. -/
  variadic : Bool
deriving DecidableEq, Repr

/-- Parameters and a result, annotated with `α`s. -/
structure Callable (α : Type) where
  params : List (Param α)
  result : α
deriving DecidableEq, Repr

inductive Ty where
  | any
  | string
  | void
  | function (signature : Callable Ty)
  /-- A name that has not been looked up. -/
  | unresolved (name : String)
  /-- The declaration with that key. -/
  | declared (key : Key)

abbrev Signature : Type :=
  Callable Ty

/-! ### Induction -/

mutual

/-- A property holds of all types if it holds of those without parts, and of a function type
whenever it holds of the types of its parameters and of its result. -/
theorem Ty.induction {P : Ty → Prop} (any : P .any) (string : P .string) (void : P .void)
    (function : ∀ s : Signature, (∀ p ∈ s.params, P p.type) → P s.result → P (.function s))
    (unresolved : ∀ name, P (.unresolved name)) (declared : ∀ key, P (.declared key)) : ∀ t, P t
  | .any => any
  | .string => string
  | .void => void
  | .function ⟨ps, r⟩ =>
    function ⟨ps, r⟩ (Ty.induction_params any string void function unresolved declared ps)
      (Ty.induction any string void function unresolved declared r)
  | .unresolved name => unresolved name
  | .declared key => declared key
termination_by structural t => t

/-- The same for the types of parameters. -/
theorem Ty.induction_params {P : Ty → Prop} (any : P .any) (string : P .string) (void : P .void)
    (function : ∀ s : Signature, (∀ p ∈ s.params, P p.type) → P s.result → P (.function s))
    (unresolved : ∀ name, P (.unresolved name)) (declared : ∀ key, P (.declared key)) :
    ∀ ps : List (Param Ty), ∀ p ∈ ps, P p.type
  | [], _, h => nomatch h
  | ⟨_, t, _, _⟩ :: _, _, .head _ => Ty.induction any string void function unresolved declared t
  | _ :: ps, p, .tail _ h =>
    Ty.induction_params any string void function unresolved declared ps p h
termination_by structural ps => ps

end

/-! ### Comparison -/

mutual

/-- Whether two types are the same, names of parameters included. -/
def Ty.beq : Ty → Ty → Bool
  | .any, .any | .string, .string | .void, .void => true
  | .function ⟨ps, r⟩, .function ⟨qs, q⟩ => Ty.beqParams ps qs && r.beq q
  | .unresolved a, .unresolved b => a == b
  | .declared a, .declared b => a == b
  | _, _ => false
termination_by structural t => t

/-- Whether two lists of parameters are the same. -/
def Ty.beqParams : List (Param Ty) → List (Param Ty) → Bool
  | [], [] => true
  | ⟨n, t, o, v⟩ :: ps, ⟨n', t', o', v'⟩ :: qs =>
    n == n' && t.beq t' && o == o' && v == v' && Ty.beqParams ps qs
  | _, _ => false
termination_by structural ps => ps

end

theorem Ty.beqParams_iff_eq {ps : List (Param Ty)}
    (h : ∀ p ∈ ps, ∀ t, p.type.beq t = true ↔ p.type = t) :
    ∀ qs, Ty.beqParams ps qs = true ↔ ps = qs := by
  induction ps with
  | nil => intro qs; cases qs <;> simp [Ty.beqParams]
  | cons p ps ih =>
    intro qs
    have ih := ih fun p' hp' => h p' (.tail _ hp')
    have hp := h p (.head _)
    obtain ⟨n, t, o, v⟩ := p
    cases qs with
    | nil => simp [Ty.beqParams]
    | cons q qs =>
      obtain ⟨n', t', o', v'⟩ := q
      simp only [Ty.beqParams, Bool.and_eq_true, beq_iff_eq, ih qs, hp t', List.cons.injEq,
        Param.mk.injEq]
      constructor <;> (intro h; simp_all)

theorem Ty.beq_iff_eq (s : Ty) : ∀ t, s.beq t = true ↔ s = t := by
  induction s using Ty.induction with
  | function s params result =>
    intro t
    obtain ⟨ps, r⟩ := s
    cases t with
    | function t =>
      obtain ⟨qs, q⟩ := t
      simp only [Ty.beq, Bool.and_eq_true, Ty.beqParams_iff_eq params qs, result q,
        Ty.function.injEq, Callable.mk.injEq]
    | _ => simp [Ty.beq]
  | any | string | void => intro t; cases t <;> simp [Ty.beq]
  | unresolved name => intro t; cases t <;> simp [Ty.beq]
  | declared key => intro t; cases t <;> simp [Ty.beq]

instance : DecidableEq Ty := fun s t =>
  decidable_of_iff (s.beq t = true) (Ty.beq_iff_eq s t)

/-! ### Parts -/

namespace Param

variable {α : Type}

/-- A parameter that needs an argument. -/
def required (name : String) (type : α) : Param α :=
  ⟨name, type, false, false⟩

/-- Whether a call may go without an argument for it. -/
def omittable (p : Param α) : Bool :=
  p.optional || p.variadic

end Param

namespace Callable

variable {α : Type}

/-- The least number of arguments: the parameters before the first that can do without one. -/
def minArgs (c : Callable α) : Nat :=
  (c.params.takeWhile fun p => !p.omittable).length

/-- The greatest number of arguments, if there is one. -/
def maxArgs? (c : Callable α) : Option Nat :=
  if c.params.any Param.variadic then none else some c.params.length

end Callable

/-- The signature of any function at all: `(...args: any) => any`. -/
def Signature.untyped : Signature :=
  ⟨[⟨"args", .any, false, true⟩], .any⟩

namespace Ty

/-- The type that a written name stands for. -/
def ofName (name : String) : Ty :=
  if name = "any" then .any
  else if name = "string" then .string
  else if name = "void" then .void
  else if name = "Function" then .function Signature.untyped
  else .unresolved name

def signature? : Ty → Option Signature
  | .function s => some s
  | _ => none

end Ty

end Overlay
