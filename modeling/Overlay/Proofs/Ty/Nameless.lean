/-
Types without the names of parameters.

`Ty.nameless` leaves every name of a parameter empty, at any depth.  Two types are alike if and only
if they are the same without names, so that being alike is an equivalence; and what is computed of
types does not depend on the names:

* `Ty.alike_iff` — alike types are those that are the same without names;
* `Signature.alike_replace` — putting types in the place of names keeps signatures alike;
* `Ty.fit_nameless` — how two types fit into each other does not depend on names;
* `Signature.accepts_congr` — alike signatures accept the same calls;
* `Ty.fits_self` — a type fits into its own place;
* `Ty.fits_of_alike` — so alike types fit into each other, and into the same places.
-/
import Overlay.Ty.Fit
import Overlay.Ty.Identity
import Overlay.Ty.References

namespace Overlay

mutual

/-- The type with all names of parameters left empty. -/
def Ty.nameless : Ty → Ty
  | .function ⟨ps, r⟩ => .function ⟨Ty.namelessParams ps, r.nameless⟩
  | .any => .any
  | .string => .string
  | .void => .void
  | .unresolved name => .unresolved name
  | .declared key => .declared key
termination_by structural t => t

/-- The parameters with all names left empty. -/
def Ty.namelessParams : List (Param Ty) → List (Param Ty)
  | [] => []
  | ⟨_, t, optional, variadic⟩ :: ps => ⟨"", t.nameless, optional, variadic⟩ :: Ty.namelessParams ps
termination_by structural ps => ps

end

/-- The parameter without its name. -/
def Param.nameless (p : Param Ty) : Param Ty :=
  ⟨"", p.type.nameless, p.optional, p.variadic⟩

/-- The signature with all names of parameters left empty. -/
def Signature.nameless (s : Signature) : Signature :=
  ⟨s.params.map Param.nameless, s.result.nameless⟩

namespace Ty

theorem namelessParams_eq_map (ps : List (Param Ty)) :
    namelessParams ps = ps.map Param.nameless := by
  induction ps with
  | nil => rfl
  | cons p ps ih => rw [namelessParams, ih]; rfl

@[simp] theorem nameless_function (s : Signature) :
    (function s).nameless = function s.nameless := by
  obtain ⟨ps, r⟩ := s
  rw [nameless, namelessParams_eq_map]
  rfl

@[simp] theorem nameless_any : any.nameless = any := rfl

@[simp] theorem nameless_string : string.nameless = string := rfl

@[simp] theorem nameless_void : void.nameless = void := rfl

@[simp] theorem nameless_unresolved (name : String) :
    (unresolved name).nameless = unresolved name := rfl

@[simp] theorem nameless_declared (key : Key) : (declared key).nameless = declared key := rfl

theorem nameless_eq_void (t : Ty) : t.nameless = void ↔ t = void := by
  cases t <;> simp

theorem nameless_nameless (t : Ty) : t.nameless.nameless = t.nameless := by
  induction t using Ty.induction with
  | function s params result =>
    have hparams : s.nameless.params.map Param.nameless = s.params.map Param.nameless := by
      rw [Signature.nameless, List.map_map]
      refine List.map_congr_left fun p hp => ?_
      simp [Param.nameless, params p hp]
    rw [nameless_function, nameless_function]
    exact congrArg function (Callable.mk.injEq .. ▸ ⟨hparams, result⟩)
  | any | string | void => rfl
  | unresolved name => rfl
  | declared key => rfl

/-! ### Alike types -/

theorem alikeParams_iff {ps : List (Param Ty)}
    (h : ∀ p ∈ ps, ∀ t, p.type.alike t = true ↔ p.type.nameless = t.nameless) :
    ∀ qs, alikeParams ps qs = true ↔ ps.map Param.nameless = qs.map Param.nameless := by
  induction ps with
  | nil => intro qs; cases qs <;> simp [alikeParams]
  | cons p ps ih =>
    intro qs
    have hrest := ih fun p' hp' => h p' (.tail _ hp')
    have hp := h p (.head _)
    obtain ⟨name, t, optional, variadic⟩ := p
    cases qs with
    | nil => simp [alikeParams]
    | cons q qs =>
      obtain ⟨name', t', optional', variadic'⟩ := q
      -- all fields but the name are compared, and the name is what is left out
      simp only [alikeParams, Bool.and_eq_true, hp t', hrest qs, List.map_cons, List.cons.injEq,
        Param.nameless, Param.mk.injEq, true_and]
      constructor
      · rintro ⟨⟨⟨ho, hv⟩, ht⟩, hps⟩
        exact ⟨⟨ht, eq_of_beq ho, eq_of_beq hv⟩, hps⟩
      · rintro ⟨⟨ht, rfl, rfl⟩, hps⟩
        exact ⟨⟨⟨beq_self_eq_true _, beq_self_eq_true _⟩, ht⟩, hps⟩

theorem alike_iff (s : Ty) : ∀ t, s.alike t = true ↔ s.nameless = t.nameless := by
  induction s using Ty.induction with
  | function s params result =>
    intro t
    cases t with
    | function t =>
      rw [alike_function, nameless_function, nameless_function, function.injEq, Signature.alike,
        Bool.and_eq_true, alikeParams_iff params, result, Signature.nameless, Signature.nameless,
        Callable.mk.injEq]
    | _ => simp [alike]
  | any | string | void => intro t; cases t <;> simp [alike]
  | unresolved name => intro t; cases t <;> simp [alike]
  | declared key => intro t; cases t <;> simp [alike]

end Ty

namespace Signature

theorem alike_iff (a b : Signature) : a.alike b = true ↔ a.nameless = b.nameless := by
  rw [← Ty.alike_function, Ty.alike_iff, Ty.nameless_function, Ty.nameless_function,
    Ty.function.injEq]

theorem alike_refl (a : Signature) : a.alike a = true :=
  (alike_iff a a).mpr rfl

theorem alike_symm {a b : Signature} (h : a.alike b = true) : b.alike a = true :=
  (alike_iff b a).mpr ((alike_iff a b).mp h).symm

theorem alike_trans {a b c : Signature} (hab : a.alike b = true) (hbc : b.alike c = true) :
    a.alike c = true :=
  (alike_iff a c).mpr (((alike_iff a b).mp hab).trans ((alike_iff b c).mp hbc))

end Signature

/-! ### Names that are looked up -/

namespace Ty

@[simp] theorem replace_any (f : String → Ty) : any.replace f = any := rfl

@[simp] theorem replace_string (f : String → Ty) : string.replace f = string := rfl

@[simp] theorem replace_void (f : String → Ty) : void.replace f = void := rfl

@[simp] theorem replace_declared (f : String → Ty) (key : Key) :
    (declared key).replace f = declared key := rfl

theorem nameless_replace (f : String → Ty) (t : Ty) :
    (t.replace f).nameless = t.nameless.replace fun name => (f name).nameless := by
  induction t using Ty.induction with
  | function s params result =>
    have hparams : (s.replace f).params.map Param.nameless
        = (s.nameless.replace fun name => (f name).nameless).params := by
      simp only [Signature.replace, Signature.nameless, List.map_map]
      refine List.map_congr_left fun p hp => ?_
      simp [Param.nameless, params p hp]
    rw [replace_function, nameless_function, nameless_function, replace_function]
    exact congrArg function (Callable.mk.injEq .. ▸ ⟨hparams, result⟩)
  | any | string | void => rfl
  | unresolved name => simp
  | declared key => rfl

/-- Alike types stay alike with the same types in the place of names. -/
theorem alike_replace (f : String → Ty) {s t : Ty} (h : s.alike t = true) :
    (s.replace f).alike (t.replace f) = true := by
  rw [alike_iff] at h ⊢
  rw [nameless_replace, nameless_replace, h]

/-- Only the types that come in the place of a type's own names matter. -/
theorem replace_congr {f g : String → Ty} {t : Ty} (h : ∀ name ∈ t.references, f name = g name) :
    t.replace f = t.replace g := by
  induction t using Ty.induction with
  | function s params result =>
    rw [references_function, Signature.references] at h
    have hparams : ∀ p ∈ s.params, p.type.replace f = p.type.replace g := by
      intro p hp
      refine params p hp fun name hname => h name (List.mem_append_left _ ?_)
      exact List.mem_flatMap.mpr ⟨p, hp, hname⟩
    have hresult := result fun name hname => h name (List.mem_append_right _ hname)
    rw [replace_function, replace_function, Signature.replace, Signature.replace, hresult]
    congr 2
    refine List.map_congr_left fun p hp => ?_
    rw [hparams p hp]
  | any | string | void => rfl
  | unresolved name => simpa [references] using h
  | declared key => rfl

theorem replace_self (t : Ty) : t.replace unresolved = t := by
  induction t using Ty.induction with
  | function s params result =>
    have hparams : s.params.map (fun p => { p with type := p.type.replace unresolved })
        = s.params := by
      calc _ = s.params.map id := List.map_congr_left fun p hp => by rw [params p hp, id]
        _ = s.params := List.map_id s.params
    rw [replace_function, Signature.replace, hparams, result]
  | any | string | void => rfl
  | unresolved name => exact replace_unresolved unresolved name
  | declared key => rfl

/-- A type without names to look up stays as it is. -/
theorem replace_eq_self (f : String → Ty) {t : Ty} (h : t.references = []) : t.replace f = t := by
  -- with no name in it, a type cannot tell `f` from what leaves every name alone
  calc t.replace f = t.replace unresolved := replace_congr fun name hname => by simp [h] at hname
    _ = t := replace_self t

end Ty

namespace Signature

theorem replace_congr {f g : String → Ty} {s : Signature}
    (h : ∀ name ∈ s.references, f name = g name) : s.replace f = s.replace g := by
  have hs := Ty.replace_congr (t := .function s) (by rwa [Ty.references_function])
  rwa [Ty.replace_function, Ty.replace_function, Ty.function.injEq] at hs

theorem alike_replace (f : String → Ty) {a b : Signature} (h : a.alike b = true) :
    (a.replace f).alike (b.replace f) = true := by
  rw [← Ty.alike_function] at h ⊢
  rw [← Ty.replace_function, ← Ty.replace_function]
  exact Ty.alike_replace f h

/-- A signature without names to look up stays as it is. -/
theorem replace_eq_self (f : String → Ty) {s : Signature} (h : s.references = []) :
    s.replace f = s := by
  have hself := Ty.replace_eq_self f (t := .function s) (by rwa [Ty.references_function])
  rwa [Ty.replace_function, Ty.function.injEq] at hself

end Signature

/-! ### Types that fit -/

namespace Signature

@[simp] theorem minArgs_nameless (s : Signature) :
    Callable.minArgs s.nameless = Callable.minArgs s := by
  simp [Callable.minArgs, nameless, List.takeWhile_map, Function.comp_def, Param.omittable,
    Param.nameless]

@[simp] theorem maxArgs?_nameless (s : Signature) :
    Callable.maxArgs? s.nameless = Callable.maxArgs? s := by
  simp [Callable.maxArgs?, nameless, List.any_map, Function.comp_def, Param.nameless]

@[simp] theorem length_params_nameless (s : Signature) :
    s.nameless.params.length = s.params.length := by
  simp [nameless]

@[simp] theorem suffices_nameless (s t : Signature) :
    Callable.suffices s.nameless t.nameless = Callable.suffices s t := by
  simp [Callable.suffices]

end Signature

namespace Ty

theorem fitParams_nameless {ps : List (Param Ty)}
    (h : ∀ p ∈ ps, ∀ t : Ty, p.type.nameless.fit t.nameless = p.type.fit t) :
    ∀ qs, fitParams (ps.map Param.nameless) (qs.map Param.nameless) = fitParams ps qs := by
  induction ps with
  | nil => intro qs; cases qs <;> rfl
  | cons p ps ih =>
    intro qs
    have hrest := ih fun p' hp' => h p' (.tail _ hp')
    cases qs with
    | nil => rfl
    | cons q qs => simp [fitParams, Param.nameless, h p (.head _) q.type, ← hrest qs]

theorem fit_nameless (s : Ty) : ∀ t : Ty, s.nameless.fit t.nameless = s.fit t := by
  induction s using Ty.induction with
  | function s params result =>
    intro t
    cases t with
    | function t =>
      have hparams := fitParams_nameless params t.params
      have hst := Signature.suffices_nameless s t
      have hts := Signature.suffices_nameless t s
      simp only [Signature.nameless] at hst hts
      rw [nameless_function, nameless_function, Signature.nameless, Signature.nameless, fit, fit,
        hparams, hst, hts, result]
      simp only [nameless_eq_void]
    | _ => simp [fit]
  | any | string | void => intro t; cases t <;> simp [fit]
  | unresolved name => intro t; cases t <;> simp [fit]
  | declared key => intro t; cases t <;> simp [fit]

/-- Whether types fit depends on them only up to names of parameters. -/
theorem fits_congr {s s' t t' : Ty} (hs : s.nameless = s'.nameless)
    (ht : t.nameless = t'.nameless) : s.fits t = s'.fits t' := by
  rw [fits, fits, ← fit_nameless s t, ← fit_nameless s' t', hs, ht]

end Ty

namespace Signature

theorem parameterFor?_nameless (s : Signature) (index : Nat) :
    s.nameless.parameterFor? index = (s.parameterFor? index).map Param.nameless := by
  have hfind : s.nameless.params.find? Param.variadic
      = (s.params.find? Param.variadic).map Param.nameless := by
    rw [nameless, List.find?_map]
    rfl
  have hget : s.nameless.params[index]? = s.params[index]?.map Param.nameless := by
    rw [nameless, List.getElem?_map]
  rw [parameterFor?, parameterFor?, hget, hfind]
  cases s.params[index]? with
  | none => rfl
  | some p =>
    rw [Option.map_some]
    by_cases h : p.variadic <;> simp [h, Param.nameless]

theorem accepts_nameless (s : Signature) (arguments : List Ty) :
    s.nameless.accepts arguments = s.accepts arguments := by
  have hfits : ∀ (argument : Ty) (index : Nat),
      ((s.nameless.parameterFor? index).any fun p => argument.fits p.type)
        = ((s.parameterFor? index).any fun p => argument.fits p.type) := by
    intro argument index
    rw [parameterFor?_nameless, Option.any_map]
    congr 1
    funext p
    exact Ty.fits_congr rfl (Ty.nameless_nameless p.type)
  simp only [accepts, minArgs_nameless, maxArgs?_nameless, hfits]

/-- Alike signatures accept the same calls. -/
theorem accepts_congr {a b : Signature} (h : a.alike b = true) (arguments : List Ty) :
    a.accepts arguments = b.accepts arguments := by
  rw [← accepts_nameless a, ← accepts_nameless b, (alike_iff a b).mp h]

end Signature

/-! ### Alike types fit -/

/-- No function needs more arguments than it has parameters. -/
theorem Callable.suffices_self {α : Type} (c : Callable α) : c.suffices c = true := by
  rw [Callable.suffices, Bool.or_eq_true, decide_eq_true_iff]
  exact .inl (List.takeWhile_sublist _).length_le

namespace Ty

theorem fitParams_self {ps : List (Param Ty)} (h : ∀ p ∈ ps, p.type.fits p.type = true) :
    fitParams ps ps = true := by
  induction ps with
  | nil => rfl
  | cons p ps ih =>
    obtain ⟨hp, hps⟩ := List.forall_mem_cons.mp h
    rw [fitParams, Bool.and_eq_true, Bool.or_eq_true]
    exact ⟨.inr hp, ih hps⟩

/-- Every type fits into a place of the same type. -/
theorem fits_self (t : Ty) : t.fits t = true := by
  induction t using Ty.induction with
  | function s params result =>
    rw [fits_function, Callable.suffices_self, ← fitParams_eq_all, fitParams_self params, result,
      Bool.or_true, Bool.and_self, Bool.and_self]
  | any | string | void => rfl
  | unresolved name => simp [fits, fit]
  | declared key => simp [fits, fit]

/-- Whether types fit does not tell alike ones apart, and alike types fit into each other.  So alike
signatures accept the same calls. -/
theorem fits_of_alike :
    (∀ s s' t t' : Ty, s.alike s' = true → t.alike t' = true → s.fits t = s'.fits t') ∧
    (∀ s t : Ty, s.alike t = true → s.fits t = true ∧ t.fits s = true) ∧
    (∀ t : Ty, t.fits t = true) ∧
    ∀ a b : Signature, a.alike b = true →
      ∀ arguments, a.accepts arguments = b.accepts arguments := by
  refine ⟨fun s s' t t' hs ht => ?_, fun s t h => ⟨?_, ?_⟩, fits_self, fun a b h =>
    Signature.accepts_congr h⟩
  · exact fits_congr ((alike_iff s s').mp hs) ((alike_iff t t').mp ht)
  · rw [fits_congr ((alike_iff s t).mp h) rfl]
    exact fits_self t
  · rw [fits_congr rfl ((alike_iff s t).mp h)]
    exact fits_self t

/-- Two callbacks that name their argument in two ways, in functions that take them. -/
theorem fits_of_alike_callbacks :
    let callback (name : String) : Ty := .function ⟨[.required name .string], .any⟩
    let taking (name : String) : Signature := ⟨[.required "done" (callback name)], .void⟩
    (callback "a").alike (callback "b") = true ∧ callback "a" ≠ callback "b" ∧
      (callback "a").fits .any = (callback "b").fits .any ∧
      (callback "a").fits (callback "b") = true ∧ (callback "b").fits (callback "a") = true ∧
      (taking "a").alike (taking "b") = true ∧
      (taking "a").accepts [callback "b"] = (taking "b").accepts [callback "b"] ∧
      (taking "a").accepts [.string] = false := by
  intro callback taking
  have halike : (callback "a").alike (callback "b") = true := by decide +kernel
  have htaking : (taking "a").alike (taking "b") = true := by decide +kernel
  obtain ⟨hforth, hback⟩ := fits_of_alike.2.1 _ _ halike
  exact ⟨halike, by decide +kernel, fits_of_alike.1 _ _ .any .any halike (by decide +kernel),
    hforth, hback, htaking, fits_of_alike.2.2.2 _ _ htaking _, by decide +kernel⟩

end Ty

end Overlay
