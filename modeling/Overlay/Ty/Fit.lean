/-
Which types fit where.

A value of one type fits into a place of another if either is `any`, if the two are the same, or if
both are functions and the place asks for no more than the value's signature gives.  Parameters are
compared in both directions, and one of the two is enough.  A call fits a signature if the number
of its arguments is allowed and each of them fits its parameter; of several signatures, the first
that a call fits is chosen.

Parameters are compared both ways at every level, so `Ty.fit` finds both answers in one pass.

* `Ty.fit_swap` — the two answers change places with the types;
* `Ty.fits_function` — when a function type fits into another.
-/
import Overlay.Ty.Basic

namespace Overlay

/-- Whether one type fits into the other, and the other into the one. -/
structure Fit where
  forth : Bool
  back : Bool
deriving DecidableEq, Repr

/-- Whether a function with the parameters of `value` can be called where one with those of `place`
is: it must not need more arguments than there are. -/
def Callable.suffices {α : Type} (value place : Callable α) : Bool :=
  decide (value.minArgs ≤ place.params.length) || place.maxArgs?.isNone

mutual

/-- How two types fit into each other. -/
def Ty.fit : Ty → Ty → Fit
  | .function ⟨ps, r⟩, .function ⟨qs, q⟩ =>
    -- a place that drops the result takes any
    let params := Ty.fitParams ps qs
    let result := r.fit q
    ⟨Callable.suffices ⟨ps, r⟩ ⟨qs, q⟩ && params && (decide (q = .void) || result.forth),
      Callable.suffices ⟨qs, q⟩ ⟨ps, r⟩ && params && (decide (r = .void) || result.back)⟩
  | s, t =>
    let fits := decide (s = .any ∨ t = .any ∨ s = t)
    ⟨fits, fits⟩
termination_by structural s => s

/-- Whether parameters in the same places fit in one direction or the other. -/
def Ty.fitParams : List (Param Ty) → List (Param Ty) → Bool
  | ⟨_, s, _, _⟩ :: ps, ⟨_, t, _, _⟩ :: qs =>
    let fit := s.fit t
    (fit.back || fit.forth) && Ty.fitParams ps qs
  | _, _ => true
termination_by structural ps => ps

end

/-- Whether a value of type `s` fits into a place of type `t`. -/
def Ty.fits (s t : Ty) : Bool :=
  (s.fit t).forth

/-! ### The rule for function types -/

namespace Ty

theorem fit_swap (s : Ty) : ∀ t : Ty, t.fit s = ⟨(s.fit t).back, (s.fit t).forth⟩ := by
  induction s using Ty.induction with
  | function s params result =>
    intro t
    obtain ⟨ps, r⟩ := s
    cases t with
    | function t =>
      obtain ⟨qs, q⟩ := t
      -- which of the two lists is compared with the other makes no difference
      have hparams : ∀ qs, fitParams qs ps = fitParams ps qs := by
        clear result
        induction ps with
        | nil => intro qs; cases qs <;> rfl
        | cons p ps ih =>
          intro qs
          have hp := params p (.head _)
          have ih := ih fun p' h => params p' (.tail _ h)
          cases qs with
          | nil => rfl
          | cons q qs => simp [fitParams, hp q.type, ih qs, Bool.or_comm]
      simp [fit, hparams qs, result q]
    | _ => simp [fit]
  | any | string | void => intro t; cases t <;> simp [fit]
  | unresolved name => intro t; cases t <;> simp [fit, eq_comm]
  | declared key => intro t; cases t <;> simp [fit, eq_comm]

theorem fit_back (s t : Ty) : (s.fit t).back = t.fits s := by
  simp [fits, fit_swap s t]

theorem fitParams_eq_all (ps : List (Param Ty)) : ∀ qs, fitParams ps qs =
    (ps.zip qs).all fun (p, q) => q.type.fits p.type || p.type.fits q.type := by
  induction ps with
  | nil => intro qs; rfl
  | cons p ps ih =>
    intro qs
    cases qs with
    | nil => rfl
    | cons q qs => simp [fitParams, ih qs, fit_back, fits]

theorem fits_function (s t : Signature) : (function s).fits (function t) =
    (s.suffices t &&
      (s.params.zip t.params).all (fun (p, q) => q.type.fits p.type || p.type.fits q.type) &&
      (decide (t.result = .void) || s.result.fits t.result)) := by
  obtain ⟨ps, r⟩ := s
  obtain ⟨qs, q⟩ := t
  rw [fits, fit, fitParams_eq_all]
  rfl

end Ty

/-! ### Calls -/

namespace Signature

/-- The parameter that takes the argument with the given number: the one in its place, or else the
first variadic one. -/
def parameterFor? (s : Signature) (index : Nat) : Option (Param Ty) :=
  match s.params[index]? with
  -- in its place may stand a variadic parameter that is not the first
  | some p => if p.variadic then s.params.find? Param.variadic else some p
  | none => s.params.find? Param.variadic

/-- Whether a call with arguments of these types fits the signature. -/
def accepts (s : Signature) (arguments : List Ty) : Bool :=
  decide (s.minArgs ≤ arguments.length) &&
  s.maxArgs?.all (fun max => decide (arguments.length ≤ max)) &&
  arguments.zipIdx.all fun (argument, index) =>
    (s.parameterFor? index).any fun p => argument.fits p.type

/-- The first of several signatures that a call fits, with its number. -/
def choose? (signatures : List Signature) (arguments : List Ty) : Option (Nat × Signature) :=
  (signatures.zipIdx.find? fun (s, _) => s.accepts arguments).map fun (s, index) => (index, s)

end Signature

end Overlay
