/-
Being alike as an equivalence.

Types are alike if and only if they are the same without the names of parameters, so that being
alike is an equivalence.  Where names are looked up, alike types cannot be told apart: they ask for
the same types in the same order, so that they stay alike even if a type that is given for a name
depends on what was asked for before.

* `Ty.equivalence_alike`, `Signature.equivalence_alike` — being alike is an equivalence;
* `Ty.nameless_replaceM` — names of parameters may be left out before types are asked for;
* `Ty.exists_alike_of_replaceM` — so alike types stay alike, and leave the same behind;
* `Ty.alike_exact` — all this in one statement.
-/
import Overlay.Proofs.Ty.Nameless

namespace Overlay

/-! ### An equivalence -/

theorem Ty.equivalence_alike : Equivalence fun s t : Ty => s.alike t = true where
  refl t := (alike_iff t t).mpr rfl
  symm h := (alike_iff _ _).mpr ((alike_iff _ _).mp h).symm
  trans hst htu := (alike_iff _ _).mpr (((alike_iff _ _).mp hst).trans ((alike_iff _ _).mp htu))

theorem Signature.equivalence_alike : Equivalence fun a b : Signature => a.alike b = true :=
  ⟨alike_refl, alike_symm, alike_trans⟩

/-! ### Types in the place of names -/

namespace Ty

section Effects

variable {m : Type → Type} [Monad m] [LawfulMonad m]

theorem namelessParams_replaceParamsM {f : String → m Ty} {ps : List (Param Ty)}
    (h : ∀ p ∈ ps, nameless <$> p.type.replaceM f
      = p.type.nameless.replaceM fun name => nameless <$> f name) :
    namelessParams <$> replaceParamsM f ps
      = replaceParamsM (fun name => nameless <$> f name) (namelessParams ps) := by
  induction ps with
  | nil => simp [replaceParamsM, namelessParams]
  | cons p ps ih =>
    obtain ⟨hp, hps⟩ := List.forall_mem_cons.mp h
    obtain ⟨name, t, optional, variadic⟩ := p
    rw [namelessParams, replaceParamsM, replaceParamsM, ← ih hps, ← hp]
    simp [namelessParams]

/-- Leaving out the names of parameters does not change which types are asked for. -/
theorem nameless_replaceM (f : String → m Ty) (t : Ty) :
    nameless <$> t.replaceM f = t.nameless.replaceM fun name => nameless <$> f name := by
  induction t using Ty.induction with
  | function s params result =>
    obtain ⟨ps, r⟩ := s
    rw [nameless, replaceM, replaceM, ← namelessParams_replaceParamsM params, ← result]
    simp [nameless]
  | any | string | void => simp [replaceM]
  | unresolved name => simp [replaceM]
  | declared key => simp [replaceM]

end Effects

/-- In the place of names in alike types come types that are alike, and what is remembered of it is
the same. -/
theorem exists_alike_of_replaceM {σ : Type} (f : String → StateM σ Ty) (memory : σ) {s t : Ty}
    (h : s.alike t = true) :
    ∃ s' t' memory', (s.replaceM f).run memory = (s', memory') ∧
      (t.replaceM f).run memory = (t', memory') ∧ s'.alike t' = true := by
  -- without the names of parameters, both ask for the same types
  have hnameless : nameless <$> s.replaceM f = nameless <$> t.replaceM f := by
    rw [nameless_replaceM, nameless_replaceM, (alike_iff s t).mp h]
  obtain ⟨htypes, hmemory⟩ := Prod.mk.inj (congrArg (·.run memory) hnameless)
  exact ⟨_, _, _, rfl, Prod.ext rfl hmemory.symm, (alike_iff _ _).mpr htypes⟩

/-- Types, and signatures, are alike if and only if they are the same without the names of
parameters, which is an equivalence.  With the same types in the place of names they stay alike,
even if what is given for a name depends on the names that were asked for before. -/
theorem alike_exact :
    (∀ s t : Ty, s.alike t = true ↔ s.nameless = t.nameless) ∧
    (∀ a b : Signature, a.alike b = true ↔ a.nameless = b.nameless) ∧
    (Equivalence fun s t : Ty => s.alike t = true) ∧
    (Equivalence fun a b : Signature => a.alike b = true) ∧
    (∀ (f : String → Ty) (s t : Ty), s.alike t = true →
      (s.replace f).alike (t.replace f) = true) ∧
    (∀ (f : String → Ty) (a b : Signature), a.alike b = true →
      (a.replace f).alike (b.replace f) = true) ∧
    ∀ (σ : Type) (f : String → StateM σ Ty) (memory : σ) (s t : Ty), s.alike t = true →
      ∃ s' t' memory', (s.replaceM f).run memory = (s', memory') ∧
        (t.replaceM f).run memory = (t', memory') ∧ s'.alike t' = true :=
  ⟨alike_iff, Signature.alike_iff, equivalence_alike, Signature.equivalence_alike,
    fun f _ _ => alike_replace f, fun f _ _ => Signature.alike_replace f,
    fun _ f memory _ _ => exists_alike_of_replaceM f memory⟩

/-- Two functions that take a callback and name all parameters in two ways.  They stay alike when a
callback with a name of its own comes in the place of a name, and when only the first name that is
asked for is found; a function whose callback may leave off its argument is not alike them. -/
theorem alike_exact_callbacks :
    let callback (name : String) (optional : Bool) : Ty :=
      .function ⟨[⟨name, .unresolved "Node", optional, false⟩], .void⟩
    let visiting (outer inner : String) (optional : Bool) : Signature :=
      ⟨[.required outer (callback inner optional)], .unresolved "Node"⟩
    let a := visiting "visit" "node" false
    let b := visiting "f" "x" false
    let first (_ : String) : StateM Bool Ty := do
      let found ← get
      set false
      return if found then .declared (.ofGlobal "Node") else .any
    a ≠ b ∧ a.alike b = true ∧ ¬ a.alike (visiting "visit" "node" true) = true ∧
      (a.replace fun name => callback name true).alike
        (b.replace fun name => callback name true) = true ∧
      ∃ s t found, ((function a).replaceM first).run true = (s, found) ∧
        ((function b).replaceM first).run true = (t, found) ∧ s.alike t = true := by
  intro callback visiting a b first
  -- the theorem is read at these signatures, and only its sides are evaluated
  obtain ⟨-, hsignatures, -, -, -, hreplace, hremember⟩ := alike_exact
  have halike : a.alike b = true := (hsignatures a b).mpr (by decide +kernel)
  refine ⟨by decide +kernel, halike, fun h => ?_, hreplace _ a b halike,
    hremember Bool first true (function a) (function b) (by rwa [alike_function])⟩
  exact absurd ((hsignatures _ _).mp h) (by decide +kernel)

end Ty

end Overlay
