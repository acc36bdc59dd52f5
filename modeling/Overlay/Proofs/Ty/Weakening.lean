/-
Types with `any` in the place of parts.

A name that stands for nothing is taken for `any`, so that what is not known is let through.
`s.Weakens t` says that `s` is `t` with `any` in the place of some of its parts, at any depth.
Where types fit, weaker ones do.  Parameters are compared in both directions, so this is shown for
both directions at once.

* `Ty.weakens_replace` — what comes in the place of names makes a type as weak as it is itself;
* `Ty.fits_of_weakens` — where types fit, weaker ones do;
* `Signature.accepts_of_weakens` — a weaker signature accepts weaker arguments;
* `Signature.exists_choose?_of_weakens` — of weaker signatures, one is chosen that does not come
  later;
* `Signature.failOpen` — nothing is rejected for being less known.
-/
import Overlay.Proofs.Ty.Nameless
import Mathlib.Data.List.Forall2

namespace Overlay

/-! ### Weaker types -/

mutual

/-- The first type is the second one with `any` in the place of some of its parts. -/
inductive Ty.Weakens : Ty → Ty → Prop
  | any (t : Ty) : Weakens .any t
  | string : Weakens .string .string
  | void : Weakens .void .void
  | function {s t : Signature} (params : Ty.WeakensParams s.params t.params)
    (result : Weakens s.result t.result) : Weakens (.function s) (.function t)
  | unresolved (name : String) : Weakens (.unresolved name) (.unresolved name)
  | declared (key : Key) : Weakens (.declared key) (.declared key)

/-- As many parameters, each the same but for a weaker type. -/
inductive Ty.WeakensParams : List (Param Ty) → List (Param Ty) → Prop
  | nil : WeakensParams [] []
  | cons {s t : Ty} {ps qs : List (Param Ty)} (name : String) (optional variadic : Bool)
    (type : Ty.Weakens s t) (params : Ty.WeakensParams ps qs) :
    WeakensParams (⟨name, s, optional, variadic⟩ :: ps) (⟨name, t, optional, variadic⟩ :: qs)

end

/-- The first signature is the second one with `any` in the place of some parts of its types. -/
structure Signature.Weakens (s t : Signature) : Prop where
  params : Ty.WeakensParams s.params t.params
  result : s.result.Weakens t.result

/-- The parameter without its type. -/
def Param.shape {α : Type} (p : Param α) : Param Unit :=
  { p with type := () }

/-- The first parameter is the second one with a weaker type. -/
structure Param.Weakens (p q : Param Ty) : Prop where
  shape : p.shape = q.shape
  type : p.type.Weakens q.type

namespace Ty

theorem WeakensParams.forall₂ {ps qs : List (Param Ty)} (h : WeakensParams ps qs) :
    List.Forall₂ Param.Weakens ps qs := by
  induction qs generalizing ps with
  | nil => cases h; exact .nil
  | cons q qs ih =>
    cases h with
    | cons name optional variadic type params => exact .cons ⟨rfl, type⟩ (ih params)

theorem weakensParams_map {f g : Ty → Ty} {ps : List (Param Ty)}
    (h : ∀ p ∈ ps, (f p.type).Weakens (g p.type)) :
    WeakensParams (ps.map fun p => { p with type := f p.type })
      (ps.map fun p => { p with type := g p.type }) := by
  induction ps with
  | nil => exact .nil
  | cons p ps ih =>
    exact .cons p.name p.optional p.variadic (h p (List.mem_cons_self ..))
      (ih fun q hq => h q (List.mem_cons_of_mem _ hq))

/-- What comes in the place of names makes a type as weak as it is itself. -/
theorem weakens_replace {f g : String → Ty} (h : ∀ name, (f name).Weakens (g name)) (t : Ty) :
    (t.replace f).Weakens (t.replace g) := by
  induction t using Ty.induction with
  | function s params result =>
    rw [replace_function, replace_function]
    exact .function (weakensParams_map params) result
  | any => exact .any _
  | string => exact .string
  | void => exact .void
  | unresolved name =>
    rw [replace_unresolved, replace_unresolved]
    exact h name
  | declared key => exact .declared key

theorem weakens_refl (t : Ty) : t.Weakens t := by
  have h := weakens_replace .unresolved t
  rwa [replace_self] at h

end Ty

theorem Signature.weakens_replace {f g : String → Ty} (h : ∀ name, (f name).Weakens (g name))
    (s : Signature) : (s.replace f).Weakens (s.replace g) :=
  ⟨Ty.weakensParams_map fun p _ => Ty.weakens_replace h p.type, Ty.weakens_replace h s.result⟩

/-! ### The shape of parameters -/

namespace Param

variable {α : Type}

@[simp] theorem omittable_shape (p : Param α) : p.shape.omittable = p.omittable := rfl

@[simp] theorem variadic_shape (p : Param α) : p.shape.variadic = p.variadic := rfl

theorem Weakens.variadic {p q : Param Ty} (h : p.Weakens q) : p.variadic = q.variadic := by
  rw [← variadic_shape, h.shape, variadic_shape]

end Param

namespace Callable

variable {α : Type} (c : Callable α)

/-- The numbers of arguments that are allowed depend on the shape alone. -/
theorem minArgs_eq : c.minArgs
    = ((c.params.map Param.shape).takeWhile fun p => !p.omittable).length := by
  simp [minArgs, List.takeWhile_map, Function.comp_def]

theorem maxArgs?_eq : c.maxArgs? = if (c.params.map Param.shape).any Param.variadic then none
    else some (c.params.map Param.shape).length := by
  simp [maxArgs?, List.any_map, Function.comp_def]

end Callable

theorem Ty.WeakensParams.map_shape {ps qs : List (Param Ty)} (h : WeakensParams ps qs) :
    ps.map Param.shape = qs.map Param.shape := by
  rw [← List.forall₂_eq_eq_eq, List.forall₂_map_left_iff, List.forall₂_map_right_iff]
  exact h.forall₂.imp fun p q hpq => hpq.shape

namespace Signature.Weakens

variable {s t : Signature} (h : s.Weakens t)

include h

theorem minArgs_eq : Callable.minArgs s = Callable.minArgs t := by
  rw [Callable.minArgs_eq, Callable.minArgs_eq, h.params.map_shape]

theorem maxArgs?_eq : Callable.maxArgs? s = Callable.maxArgs? t := by
  rw [Callable.maxArgs?_eq, Callable.maxArgs?_eq, h.params.map_shape]

theorem length_params : s.params.length = t.params.length :=
  h.params.forall₂.length_eq

omit h in
theorem suffices_eq {s s' t t' : Signature} (hs : s'.Weakens s) (ht : t'.Weakens t) :
    Callable.suffices s' t' = Callable.suffices s t := by
  rw [Callable.suffices, Callable.suffices, hs.minArgs_eq, ht.length_params, ht.maxArgs?_eq]

end Signature.Weakens

/-! ### Types that fit -/

/-- Where types fit by the first answer, they do by the second. -/
structure Fit.Implies (a b : Fit) : Prop where
  forth : a.forth = true → b.forth = true
  back : a.back = true → b.back = true

theorem Fit.implies_true (a : Fit) : a.Implies ⟨true, true⟩ :=
  ⟨fun _ => rfl, fun _ => rfl⟩

theorem Fit.false_implies (b : Fit) : Fit.Implies ⟨false, false⟩ b :=
  ⟨fun h => absurd h Bool.false_ne_true, fun h => absurd h Bool.false_ne_true⟩

namespace Ty

theorem any_fit (t : Ty) : any.fit t = ⟨true, true⟩ := by
  cases t <;> simp [fit]

theorem fit_any (s : Ty) : s.fit any = ⟨true, true⟩ := by
  cases s <;> simp [fit]

theorem implies_any_fit (a : Fit) (t : Ty) : a.Implies (any.fit t) := by
  rw [any_fit]
  exact a.implies_true

theorem implies_fit_any (a : Fit) (s : Ty) : a.Implies (s.fit any) := by
  rw [fit_any]
  exact a.implies_true

theorem fit_function (s t : Signature) : (function s).fit (function t)
    = ⟨Callable.suffices s t && fitParams s.params t.params &&
        (decide (t.result = void) || (s.result.fit t.result).forth),
      Callable.suffices t s && fitParams s.params t.params &&
        (decide (s.result = void) || (s.result.fit t.result).back)⟩ := by
  obtain ⟨ps, r⟩ := s
  obtain ⟨qs, q⟩ := t
  rw [fit]

theorem fitParams_of_weakens {ps ps' qs qs' : List (Param Ty)} (hps : WeakensParams ps' ps)
    (hqs : WeakensParams qs' qs)
    (h : ∀ p ∈ ps, ∀ {s t t' : Ty}, s.Weakens p.type → t'.Weakens t →
      (p.type.fit t).Implies (s.fit t'))
    (hfit : fitParams ps qs = true) : fitParams ps' qs' = true := by
  induction ps generalizing ps' qs qs' with
  | nil =>
    cases hps
    rfl
  | cons p ps ih =>
    cases hps with
    | cons _ _ _ hptype hps =>
      cases hqs with
      | nil => rfl
      | cons _ _ _ hqtype hqs =>
        rw [fitParams, Bool.and_eq_true, Bool.or_eq_true] at hfit ⊢
        -- the direction in which the parameters fit stays the same
        have hfirst := h _ (List.mem_cons_self ..) hptype hqtype
        exact ⟨hfit.1.imp hfirst.back hfirst.forth,
          ih hps hqs (fun q hq => h q (List.mem_cons_of_mem _ hq)) hfit.2⟩

/-- A place that drops the result still drops it, or takes any. -/
theorem result_of_weakens {t t' : Ty} {fits fits' : Bool} (ht : t'.Weakens t)
    (hany : t' = any → fits' = true) (h : fits = true → fits' = true) :
    (decide (t = .void) || fits) = true → (decide (t' = .void) || fits') = true := by
  rw [Bool.or_eq_true, Bool.or_eq_true, decide_eq_true_iff, decide_eq_true_iff]
  rintro (rfl | hfits)
  · cases ht with
    | any => exact .inr (hany rfl)
    | void => exact .inl rfl
  · exact .inr (h hfits)

/-- Function types, where this is known of their parameters and of their results. -/
theorem fit_of_weakens_function {s s' t t' : Signature} (hs : s'.Weakens s) (ht : t'.Weakens t)
    (hparams : fitParams s.params t.params = true → fitParams s'.params t'.params = true)
    (hresult : (s.result.fit t.result).Implies (s'.result.fit t'.result)) :
    ((function s).fit (function t)).Implies ((function s').fit (function t')) := by
  rw [fit_function, fit_function, Signature.Weakens.suffices_eq hs ht,
    Signature.Weakens.suffices_eq ht hs]
  constructor <;> rw [Bool.and_eq_true, Bool.and_eq_true, Bool.and_eq_true, Bool.and_eq_true]
  · refine And.imp (And.imp_right hparams) (result_of_weakens ht.result (fun hany => ?_)
      hresult.forth)
    rw [hany, fit_any]
  · refine And.imp (And.imp_right hparams) (result_of_weakens hs.result (fun hany => ?_)
      hresult.back)
    rw [hany, any_fit]

/-- A type without parts, and any other. -/
theorem fit_of_weakens_leaf {s s' t t' : Ty} (hleaf : ∀ a, s ≠ .function a) (hs : s'.Weakens s)
    (ht : t'.Weakens t) : (s.fit t).Implies (s'.fit t') := by
  -- a type without parts becomes `any` or stays what it is
  have hsame : s' = any ∨ s' = s := by
    cases hs with
    | function => exact absurd rfl (hleaf _)
    | any => exact .inl rfl
    | string | void | unresolved | declared => exact .inr rfl
  rcases hsame with rfl | rfl
  · exact implies_any_fit ..
  · cases ht with
    | any => exact implies_fit_any ..
    | function =>
      cases s' with
      | function => exact absurd rfl (hleaf _)
      | any => exact implies_any_fit ..
      | string | void | unresolved | declared => exact Fit.false_implies _
    | string | void | unresolved | declared => exact ⟨id, id⟩

/-- Where types fit in a direction, weaker ones do. -/
theorem fit_of_weakens (s : Ty) : ∀ {s' t t' : Ty}, s'.Weakens s → t'.Weakens t →
    (s.fit t).Implies (s'.fit t') := by
  induction s using Ty.induction with
  | function s params result =>
    intro s' t t' hs ht
    cases hs with
    | any => exact implies_any_fit ..
    | function hps hr =>
      cases ht with
      | any => exact implies_fit_any ..
      | function hqs hq =>
        exact fit_of_weakens_function ⟨hps, hr⟩ ⟨hqs, hq⟩ (fitParams_of_weakens hps hqs params)
          (result hr hq)
      | string | void | unresolved | declared => exact Fit.false_implies _
  | any | string | void | unresolved | declared =>
    exact fun hs ht => fit_of_weakens_leaf (by simp) hs ht

/-- Where types fit, weaker ones do. -/
theorem fits_of_weakens {s s' t t' : Ty} (hs : s'.Weakens s) (ht : t'.Weakens t)
    (h : s.fits t = true) : s'.fits t' = true :=
  (fit_of_weakens s hs ht).forth h

end Ty

/-! ### Calls -/

section

variable {α β : Type} {related : α → β → Prop} {as : List α} {bs : List β}

/-- In lists that are related element by element, the same places have related elements. -/
theorem rel_getElem? (h : List.Forall₂ related as bs) (i : Nat) :
    Option.Rel related as[i]? bs[i]? := by
  induction h generalizing i with
  | nil => exact .none
  | cons hab _ ih =>
    cases i with
    | zero => exact .some hab
    | succ i => exact ih i

/-- So do searches that cannot tell related elements apart. -/
theorem rel_find? {p : α → Bool} {q : β → Bool} (h : List.Forall₂ related as bs)
    (hpq : ∀ a b, related a b → p a = q b) :
    Option.Rel related (as.find? p) (bs.find? q) := by
  induction h with
  | nil => exact .none
  | @cons a b _ _ hab _ ih =>
    by_cases hb : q b = true
    · rw [List.find?_cons_of_pos ((hpq a b hab).trans hb), List.find?_cons_of_pos hb]
      exact .some hab
    · rw [List.find?_cons_of_neg (hpq a b hab ▸ hb), List.find?_cons_of_neg hb]
      exact ih

end

namespace Signature

/-- The parameter for an argument is a weaker one. -/
theorem Weakens.rel_parameterFor? {s t : Signature} (h : s.Weakens t) (index : Nat) :
    Option.Rel Param.Weakens (s.parameterFor? index) (t.parameterFor? index) := by
  have hplace := rel_getElem? h.params.forall₂ index
  have hfirst := rel_find? h.params.forall₂ fun p q hpq => Param.Weakens.variadic hpq
  rw [parameterFor?, parameterFor?]
  generalize s.params[index]? = p?, t.params[index]? = q? at hplace
  cases hplace with
  | none => exact hfirst
  | @some p q hpq =>
    show Option.Rel _ (if p.variadic then _ else some p) (if q.variadic then _ else some q)
    rw [hpq.variadic]
    split
    · exact hfirst
    · exact .some hpq

theorem accepts_iff (s : Signature) (arguments : List Ty) : s.accepts arguments = true ↔
    Callable.minArgs s ≤ arguments.length ∧ (∀ max ∈ Callable.maxArgs? s, arguments.length ≤ max) ∧
      ∀ index, ∀ argument ∈ arguments[index]?,
        ∃ p ∈ s.parameterFor? index, argument.fits p.type = true := by
  have hmax : ((Callable.maxArgs? s).all fun max => decide (arguments.length ≤ max)) = true
      ↔ ∀ max ∈ Callable.maxArgs? s, arguments.length ≤ max := by
    simp only [Option.all_eq_true, decide_eq_true_iff, Option.mem_def]
  rw [accepts, Bool.and_eq_true, Bool.and_eq_true, decide_eq_true_iff, hmax, and_assoc]
  refine and_congr_right fun _ => and_congr_right fun _ => ?_
  simp only [List.all_eq_true, Prod.forall, List.mk_mem_zipIdx_iff_getElem?, Option.any_eq_true,
    Option.mem_def]
  exact forall_comm

/-- A weaker signature accepts weaker arguments. -/
theorem accepts_of_weakens {s s' : Signature} {arguments arguments' : List Ty} (hs : s'.Weakens s)
    (harguments : List.Forall₂ Ty.Weakens arguments' arguments)
    (h : s.accepts arguments = true) : s'.accepts arguments' = true := by
  rw [accepts_iff] at h ⊢
  obtain ⟨hmin, hmax, hfits⟩ := h
  rw [hs.minArgs_eq, hs.maxArgs?_eq, harguments.length_eq]
  refine ⟨hmin, hmax, fun index argument' hargument' => ?_⟩
  -- an argument stands at the place of the one it comes of, and so does its parameter
  have hplace := rel_getElem? harguments index
  rw [Option.mem_def.mp hargument'] at hplace
  generalize hargument : arguments[index]? = argument? at hplace
  cases hplace with
  | @some _ argument hweakens =>
    obtain ⟨p, hp, hfit⟩ := hfits index argument hargument
    have hparameter := hs.rel_parameterFor? index
    rw [Option.mem_def.mp hp] at hparameter
    generalize hp' : s'.parameterFor? index = p'? at hparameter
    cases hparameter with
    | some hp => exact ⟨_, rfl, Ty.fits_of_weakens hweakens hp.type hfit⟩

/-- What is chosen accepts the call, and nothing in front of it does. -/
theorem first_of_choose? {signatures : List Signature} {arguments : List Ty} {i : Nat}
    {s : Signature} (h : choose? signatures arguments = some (i, s)) :
    signatures[i]? = some s ∧ s.accepts arguments = true ∧
      ∀ j < i, ∀ s' ∈ signatures[j]?, s'.accepts arguments = false := by
  obtain ⟨⟨s', i'⟩, hfound, hpair⟩ := Option.map_eq_some_iff.mp h
  obtain ⟨rfl, rfl⟩ := Prod.mk.inj hpair
  obtain ⟨haccepts, k, hk, hplace, hbefore⟩ := List.find?_eq_some_iff_getElem.mp hfound
  -- the pair in a place of the numbered list has the number of the place
  rw [List.getElem_zipIdx, Nat.zero_add, Prod.mk.injEq] at hplace
  obtain ⟨rfl, rfl⟩ := hplace
  refine ⟨List.getElem?_eq_getElem _, haccepts, fun j hj s' hs' => ?_⟩
  obtain ⟨_, rfl⟩ := List.getElem?_eq_some_iff.mp hs'
  simpa using hbefore j hj

/-- Where a signature accepts a call, one is chosen that does not come later. -/
theorem exists_choose?_of_accepts {signatures : List Signature} {arguments : List Ty} {i : Nat}
    {s : Signature} (hs : signatures[i]? = some s) (h : s.accepts arguments = true) :
    ∃ j s', j ≤ i ∧ choose? signatures arguments = some (j, s') := by
  have hsome : (choose? signatures arguments).isSome := by
    rw [choose?, Option.isSome_map, List.find?_isSome]
    exact ⟨(s, i), List.mk_mem_zipIdx_iff_getElem?.mpr hs, h⟩
  obtain ⟨⟨j, s'⟩, hchosen⟩ := Option.isSome_iff_exists.mp hsome
  refine ⟨j, s', Nat.le_of_not_lt fun hlt => ?_, hchosen⟩
  obtain ⟨-, -, hbefore⟩ := first_of_choose? hchosen
  exact absurd h (Bool.not_eq_true _ ▸ hbefore i hlt s hs)

/-- Of weaker signatures, weaker arguments choose one that does not come later. -/
theorem exists_choose?_of_weakens {signatures signatures' : List Signature}
    {arguments arguments' : List Ty} {i : Nat} {s : Signature}
    (hsignatures : List.Forall₂ Weakens signatures' signatures)
    (harguments : List.Forall₂ Ty.Weakens arguments' arguments)
    (h : choose? signatures arguments = some (i, s)) :
    ∃ j s', j ≤ i ∧ choose? signatures' arguments' = some (j, s') := by
  obtain ⟨hs, haccepts, -⟩ := first_of_choose? h
  have hplace := rel_getElem? hsignatures i
  rw [hs] at hplace
  generalize hs' : signatures'[i]? = s'? at hplace
  cases hplace with
  | some hweakens =>
    exact exists_choose?_of_accepts hs' (accepts_of_weakens hweakens harguments haccepts)

/-- Nothing is rejected for being less known: weaker types still fit, weaker signatures accept
weaker arguments, and of weaker signatures one is chosen that does not come later. -/
theorem failOpen :
    (∀ s t s' t' : Ty, s'.Weakens s → t'.Weakens t → s.fits t = true → s'.fits t' = true) ∧
    (∀ (s s' : Signature) (arguments arguments' : List Ty), s'.Weakens s →
      List.Forall₂ Ty.Weakens arguments' arguments →
        s.accepts arguments = true → s'.accepts arguments' = true) ∧
    ∀ (signatures signatures' : List Signature) (arguments arguments' : List Ty) (i : Nat)
      (s : Signature), List.Forall₂ Weakens signatures' signatures →
        List.Forall₂ Ty.Weakens arguments' arguments → choose? signatures arguments = some (i, s) →
          ∃ j s', j ≤ i ∧ choose? signatures' arguments' = some (j, s') :=
  ⟨fun _ _ _ _ => Ty.fits_of_weakens, fun _ _ _ _ => accepts_of_weakens,
    fun _ _ _ _ _ _ => exists_choose?_of_weakens⟩

/-- The signature of a function that takes one argument and gives nothing back. -/
def taking (type : Ty) : Signature :=
  ⟨[.required "x" type], .void⟩

theorem weakens_taking {s t : Ty} (h : s.Weakens t) : (taking s).Weakens (taking t) :=
  ⟨.cons "x" false false h .nil, .void⟩

/-- A callback that takes a text is chosen a place for callbacks; where the place before it is not
known, it is chosen that one.  The callback itself may be known in part. -/
theorem failOpen_callback :
    let callback : Ty := .function (taking .string)
    let loose : Ty := .function (taking .any)
    let signatures := [taking .string, taking callback]
    let signatures' := [taking .any, taking loose]
    callback.fits callback = true ∧ callback.fits loose = true ∧ loose.fits callback = true ∧
      (taking callback).accepts [callback] = true ∧ (taking loose).accepts [callback] = true ∧
      choose? signatures [callback] = some (1, taking callback) ∧
      (∃ j s', j ≤ 1 ∧ choose? signatures' [loose] = some (j, s')) ∧
      choose? signatures' [loose] = some (0, taking .any) := by
  intro callback loose signatures signatures'
  -- the callback becomes weaker in its parameter only
  have hcallback : loose.Weakens callback := .function (weakens_taking (.any _)).params .void
  have hself : callback.Weakens callback := Ty.weakens_refl callback
  have hfits : callback.fits callback = true := by decide +kernel
  have haccepts : (taking callback).accepts [callback] = true := by decide +kernel
  have hchosen : choose? signatures [callback] = some (1, taking callback) := by decide +kernel
  refine ⟨hfits, failOpen.1 _ _ _ _ hself hcallback hfits, failOpen.1 _ _ _ _ hcallback hself hfits,
    haccepts, failOpen.2.1 _ _ _ _ (weakens_taking hcallback) (.cons hself .nil) haccepts, hchosen,
    failOpen.2.2 _ _ _ _ _ _ ?_ (.cons hcallback .nil) hchosen, by decide +kernel⟩
  exact .cons (weakens_taking (.any _)) (.cons (weakens_taking hcallback) .nil)

end Signature

end Overlay
