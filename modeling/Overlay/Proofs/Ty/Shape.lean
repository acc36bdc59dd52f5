/-
Signatures in shape.

A parameter list is in shape if it comes in three parts: required parameters, optional ones, and at
most one variadic parameter at the end.  A signature is in shape if its parameters are, and if the
function types in it are.  Reading a signature from the left finds a flaw if and only if it is not
in shape, and the flaw is there.

* `Signature.InShape`, `Flaw.OccursIn` — what is asked of a signature, and what a flaw says;
* `Callable.Seen.concat` — what is known of the parameters that were read, after one more;
* `Ty.occursIn_of_paramsFlaw?` — so a flaw that is found in the parameters is one of them;
* `Signature.flaw?_eq_none_iff` — nothing is found if and only if the signature is in shape;
* `Ty.flaw?_replace` — replacing names by types without flaws neither mends a type nor spoils it;
* `Signature.flaw?_exact` — and what is found is there.
-/
import Overlay.Ty.References
import Overlay.Ty.Shape
import Mathlib.Data.List.TakeWhile

namespace Overlay

/-! ### The shape of a signature -/

/-- A parameter list in its parts: required parameters, optional ones, and the variadic one. -/
structure Callable.Parts {α : Type} (params required optional : List (Param α))
    (rest : Option (Param α)) : Prop where
  params_eq : params = required ++ optional ++ rest.toList
  required : ∀ p ∈ required, p.optional = false ∧ p.variadic = false
  optional : ∀ p ∈ optional, p.optional = true ∧ p.variadic = false
  /-- A variadic parameter may be optional or not. -/
  rest : ∀ p ∈ rest, p.variadic = true

/-- A signature whose parameters come in order, as do those of all function types in it. -/
inductive Signature.InShape : Signature → Prop
  | intro {s : Signature} (order : ∃ required optional rest,
      Callable.Parts s.params required optional rest)
    (params : ∀ p ∈ s.params, ∀ t ∈ p.type.signature?, InShape t)
    (result : ∀ t ∈ s.result.signature?, InShape t) : InShape s

/-- The first signature is the second one, or that of a function type in it. -/
inductive Signature.Within : Signature → Signature → Prop
  | self (s : Signature) : Within s s
  | param {s t u : Signature} {p : Param Ty} (hp : p ∈ u.params) (ht : t ∈ p.type.signature?)
    (h : Within s t) : Within s u
  | result {s t u : Signature} (ht : t ∈ u.result.signature?) (h : Within s t) : Within s u

/-- What a flaw says of a parameter list, with the names that it gives. -/
inductive Flaw.OccursIn {α : Type} : Flaw → List (Param α) → Prop
  | requiredAfterOptional {before between behind : List (Param α)} {p q : Param α}
    (hbefore : ∀ r ∈ before, r.omittable = false) (hp : p.omittable = true)
    (hq : q.omittable = false) :
    OccursIn (.requiredAfterOptional q.name p.name) (before ++ p :: between ++ q :: behind)
  | repeatedVariadic {before between behind : List (Param α)} {p q : Param α}
    (hbefore : ∀ r ∈ before, r.variadic = false) (hp : p.variadic = true)
    (hbetween : ∀ r ∈ between, r.variadic = false) (hq : q.variadic = true) :
    OccursIn (.repeatedVariadic q.name p.name) (before ++ p :: between ++ q :: behind)
  | variadicNotLast {before behind : List (Param α)} {p : Param α}
    (hbefore : ∀ r ∈ before, r.variadic = false) (hp : p.variadic = true)
    (hbehind : behind ≠ []) : OccursIn (.variadicNotLast p.name) (before ++ p :: behind)

/-! ### Lists without a flaw -/

namespace Param

variable {α : Type} {p : Param α}

theorem omittable_eq_false_iff : p.omittable = false ↔ p.optional = false ∧ p.variadic = false :=
  Bool.or_eq_false_iff

theorem flaw?_of_variadic (h : p.variadic = true) (omittable variadic : Option String) :
    p.flaw? omittable variadic = variadic.map (.repeatedVariadic p.name) :=
  if_pos h

theorem flaw?_of_optional (ho : p.optional = true) (hv : p.variadic = false)
    (omittable variadic : Option String) : p.flaw? omittable variadic = none := by
  simp [flaw?, ho, hv]

theorem flaw?_of_required (h : p.omittable = false) (omittable variadic : Option String) :
    p.flaw? omittable variadic = omittable.map (.requiredAfterOptional p.name) := by
  obtain ⟨ho, hv⟩ := omittable_eq_false_iff.mp h
  simp [flaw?, ho, hv]

end Param

namespace Callable

variable {α : Type}

theorem misplaced?_cons_of_variadic {p : Param α} (h : p.variadic = true) (ps : List (Param α)) :
    misplaced? (p :: ps) = none ↔ ps = [] := by
  cases ps <;> simp [misplaced?, h]

theorem misplaced?_cons_of_not_variadic {p : Param α} (h : p.variadic = false)
    (ps : List (Param α)) : misplaced? (p :: ps) = misplaced? ps := by
  simp [misplaced?, h]

namespace Parts

variable {params required optional : List (Param α)} {rest : Option (Param α)}
  (h : Parts params required optional rest)

include h

theorem variadic_eq_false {p : Param α} (hp : p ∈ required ++ optional) : p.variadic = false := by
  rcases List.mem_append.mp hp with hp | hp
  · exact (h.required p hp).2
  · exact (h.optional p hp).2

/-- In a list in its parts nothing comes behind the variadic parameter. -/
theorem misplaced?_eq_none : misplaced? params = none := by
  have hfixed : ∀ p ∈ required ++ optional, (!p.variadic) = true := fun p hp => by
    simp [h.variadic_eq_false hp]
  rw [h.params_eq, misplaced?, List.dropWhile_append_of_pos hfixed]
  cases hrest : rest with
  | none => rfl
  | some p => simp [h.rest p hrest]

end Parts

end Callable

namespace Ty

theorem paramsFlaw?_cons (omittable variadic : Option String) (p : Param Ty)
    (ps : List (Param Ty)) : paramsFlaw? omittable variadic (p :: ps)
      = (p.flaw? omittable variadic).or (p.type.flaw?.or
          (paramsFlaw? (omittable.or (if p.omittable then some p.name else none))
            (variadic.or (if p.variadic then some p.name else none)) ps)) := rfl

/-- Where nothing is found in a list of parameters, nothing is in their types. -/
theorem flaw?_type_of_paramsFlaw? {omittable variadic : Option String} {ps : List (Param Ty)}
    (h : paramsFlaw? omittable variadic ps = none) : ∀ p ∈ ps, p.type.flaw? = none := by
  induction ps generalizing omittable variadic with
  | nil => exact fun p hp => absurd hp List.not_mem_nil
  | cons p ps ih =>
    rw [paramsFlaw?_cons, Option.or_eq_none_iff, Option.or_eq_none_iff] at h
    intro q hq
    rcases List.mem_cons.mp hq with rfl | hq
    · exact h.2.1
    · exact ih h.2.2 q hq

/-- A list without flaws comes in its parts, and behind a parameter that can be omitted no more is
required. -/
theorem parts_of_paramsFlaw? {omittable : Option String} {ps : List (Param Ty)}
    (hflaw : paramsFlaw? omittable none ps = none) (hplace : Callable.misplaced? ps = none) :
    ∃ required optional rest, Callable.Parts ps required optional rest ∧
      (omittable ≠ none → required = []) := by
  induction ps generalizing omittable with
  | nil => exact ⟨[], [], none, ⟨rfl, by simp, by simp, by simp⟩, fun _ => rfl⟩
  | cons p ps ih =>
    rw [paramsFlaw?_cons, Option.or_eq_none_iff, Option.or_eq_none_iff] at hflaw
    obtain ⟨hp, -, hps⟩ := hflaw
    cases hv : p.variadic with
    | true =>
      -- a variadic parameter is the last
      rw [(Callable.misplaced?_cons_of_variadic hv ps).mp hplace]
      exact ⟨[], [], some p, ⟨rfl, by simp, by simp, by simpa using hv⟩, fun _ => rfl⟩
    | false =>
      rw [Callable.misplaced?_cons_of_not_variadic hv] at hplace
      simp only [hv, Bool.false_eq_true, ↓reduceIte, Option.or_none] at hps
      obtain ⟨required, optional, rest, hparts, hrequired⟩ := ih hps hplace
      cases ho : p.optional with
      | true =>
        -- all that follows stands behind this parameter
        have hnone : required = [] := hrequired (by simp [Param.omittable, ho])
        subst hnone
        refine ⟨[], p :: optional, rest, ⟨congrArg (p :: ·) hparts.params_eq, by simp, ?_,
          hparts.rest⟩, fun _ => rfl⟩
        exact List.forall_mem_cons.mpr ⟨⟨ho, hv⟩, hparts.optional⟩
      | false =>
        -- a required parameter is the first of its part, if none before it can be omitted
        rw [Param.flaw?_of_required (Param.omittable_eq_false_iff.mpr ⟨ho, hv⟩),
          Option.map_eq_none_iff] at hp
        refine ⟨p :: required, optional, rest, ⟨congrArg (p :: ·) hparts.params_eq, ?_,
          hparts.optional, hparts.rest⟩, fun h => absurd hp h⟩
        exact List.forall_mem_cons.mpr ⟨⟨ho, hv⟩, hparts.required⟩

/-- Nothing is found in optional parameters, wherever they stand. -/
theorem paramsFlaw?_append_optional {optional ps : List (Param Ty)}
    (hoptional : ∀ p ∈ optional, p.optional = true ∧ p.variadic = false)
    (htypes : ∀ p ∈ optional, p.type.flaw? = none)
    (hps : ∀ omittable, paramsFlaw? omittable none ps = none) (omittable : Option String) :
    paramsFlaw? omittable none (optional ++ ps) = none := by
  induction optional generalizing omittable with
  | nil => exact hps omittable
  | cons p optional ih =>
    obtain ⟨⟨ho, hv⟩, hoptional⟩ := List.forall_mem_cons.mp hoptional
    obtain ⟨htype, htypes⟩ := List.forall_mem_cons.mp htypes
    simp [paramsFlaw?_cons, Param.flaw?_of_optional ho hv, htype, hv, ih hoptional htypes]

/-- Nothing is found in required parameters at the front. -/
theorem paramsFlaw?_append_required {required ps : List (Param Ty)}
    (hrequired : ∀ p ∈ required, p.optional = false ∧ p.variadic = false)
    (htypes : ∀ p ∈ required, p.type.flaw? = none) (hps : paramsFlaw? none none ps = none) :
    paramsFlaw? none none (required ++ ps) = none := by
  induction required with
  | nil => exact hps
  | cons p required ih =>
    obtain ⟨⟨ho, hv⟩, hrequired⟩ := List.forall_mem_cons.mp hrequired
    obtain ⟨htype, htypes⟩ := List.forall_mem_cons.mp htypes
    have homit : p.omittable = false := Param.omittable_eq_false_iff.mpr ⟨ho, hv⟩
    simp [paramsFlaw?_cons, Param.flaw?_of_required homit, homit, htype, hv, ih hrequired htypes]

/-- Nothing is found in a list in its parts. -/
theorem paramsFlaw?_of_parts {ps required optional : List (Param Ty)} {rest : Option (Param Ty)}
    (h : Callable.Parts ps required optional rest) (htypes : ∀ p ∈ ps, p.type.flaw? = none) :
    paramsFlaw? none none ps = none := by
  have hrest : ∀ omittable, paramsFlaw? omittable none rest.toList = none := by
    intro omittable
    cases hp : rest with
    | none => rfl
    | some p =>
      have htype := htypes p (by simp [h.params_eq, hp])
      simp [paramsFlaw?, Param.flaw?, htype, h.rest p hp]
  rw [h.params_eq] at htypes ⊢
  simp only [List.forall_mem_append] at htypes
  rw [List.append_assoc]
  exact paramsFlaw?_append_required h.required htypes.1.1
    (paramsFlaw?_append_optional h.optional htypes.1.2 hrest none)

theorem flaw?_eq_none_iff (t : Ty) : t.flaw? = none ↔ ∀ s ∈ t.signature?, s.InShape := by
  induction t using Ty.induction with
  | function s params result =>
    rw [flaw?_function, Option.or_eq_none_iff, Option.or_eq_none_iff, result]
    simp only [signature?, Option.mem_some, forall_eq']
    constructor
    · rintro ⟨hparams, hplace, hresult⟩
      obtain ⟨required, optional, rest, hparts, -⟩ := parts_of_paramsFlaw? hparams hplace
      refine .intro ⟨required, optional, rest, hparts⟩ (fun p hp => ?_) hresult
      exact (params p hp).mp (flaw?_type_of_paramsFlaw? hparams p hp)
    · rintro ⟨⟨required, optional, rest, hparts⟩, hparams, hresult⟩
      refine ⟨paramsFlaw?_of_parts hparts fun p hp => ?_, hparts.misplaced?_eq_none, hresult⟩
      exact (params p hp).mpr (hparams p hp)
  | any | string | void => simp [flaw?, signature?]
  | unresolved name => simp [flaw?, signature?]
  | declared key => simp [flaw?, signature?]

end Ty

/-- Nothing is found in a signature if and only if it is in shape. -/
theorem Signature.flaw?_eq_none_iff (s : Signature) : s.flaw? = none ↔ s.InShape := by
  rw [flaw?, Ty.flaw?_eq_none_iff, Ty.signature?]
  simp

/-! ### Flaws and names -/

theorem Callable.misplaced?_map {α β : Type} (g : α → β) (ps : List (Param α)) :
    misplaced? (ps.map fun p => { p with type := g p.type }) = misplaced? ps := by
  have hbehind : (ps.map fun p => { p with type := g p.type }).dropWhile (fun p => !p.variadic)
      = (ps.dropWhile fun p => !p.variadic).map fun p => { p with type := g p.type } :=
    List.dropWhile_map ..
  rw [misplaced?, misplaced?, hbehind]
  generalize ps.dropWhile (fun p => !p.variadic) = behind
  rcases behind with _ | ⟨p, _ | ⟨q, rest⟩⟩
  · rfl
  · rfl
  · rfl

namespace Ty

theorem paramsFlaw?_map {g : Ty → Ty} {ps : List (Param Ty)}
    (h : ∀ p ∈ ps, (g p.type).flaw? = p.type.flaw?) : ∀ omittable variadic,
    paramsFlaw? omittable variadic (ps.map fun p => { p with type := g p.type })
      = paramsFlaw? omittable variadic ps := by
  induction ps with
  | nil => intro omittable variadic; rfl
  | cons p ps ih =>
    intro omittable variadic
    obtain ⟨hp, hps⟩ := List.forall_mem_cons.mp h
    -- of a parameter, only its place among the others and the inside of its type are looked at
    rw [List.map_cons, paramsFlaw?_cons, paramsFlaw?_cons, hp, ih hps]
    rfl

/-- Types without flaws in the place of names neither mend a type nor spoil it. -/
theorem flaw?_replace {f : String → Ty} {t : Ty}
    (h : ∀ name ∈ t.references, (f name).flaw? = none) : (t.replace f).flaw? = t.flaw? := by
  induction t using Ty.induction with
  | function s params result =>
    rw [references_function, Signature.references] at h
    have htypes : ∀ p ∈ s.params, (p.type.replace f).flaw? = p.type.flaw? := by
      intro p hp
      refine params p hp fun name hname => h name (List.mem_append_left _ ?_)
      exact List.mem_flatMap.mpr ⟨p, hp, hname⟩
    have hparams : paramsFlaw? none none (s.replace f).params = paramsFlaw? none none s.params :=
      paramsFlaw?_map htypes none none
    -- the places of parameters and their marks are as before
    have hplaces : Callable.misplaced? (s.replace f).params = Callable.misplaced? s.params :=
      Callable.misplaced?_map (replace f) s.params
    have hresult : (s.replace f).result.flaw? = s.result.flaw? :=
      result fun name hname => h name (List.mem_append_right _ hname)
    rw [replace_function, flaw?_function, flaw?_function, hparams, hplaces, hresult]
  | any | string | void => rfl
  | unresolved name => simpa [references, flaw?] using h
  | declared key => rfl

end Ty

theorem Signature.flaw?_replace {f : String → Ty} {s : Signature}
    (h : ∀ name ∈ s.references, (f name).flaw? = none) : (s.replace f).flaw? = s.flaw? := by
  rw [flaw?, flaw?, ← Ty.replace_function]
  exact Ty.flaw?_replace (by rwa [Ty.references_function])

/-! ### Flaws that are found -/

/-- What is known of parameters that were read without finding anything in their order: the name of
the first that can be omitted, and that of the first variadic one, beside which is no other. -/
structure Callable.Seen {α : Type} (before : List (Param α)) (omittable variadic : Option String) :
    Prop where
  omittable : omittable = (before.find? Param.omittable).map Param.name
  variadic : variadic = (before.find? Param.variadic).map Param.name
  single : (before.filter Param.variadic).length ≤ 1

namespace Callable

variable {α : Type} {before : List (Param α)} {omittable variadic : Option String}

theorem seen_nil : Seen ([] : List (Param α)) none none :=
  ⟨rfl, rfl, Nat.zero_le 1⟩

/-- The name of the first parameter that passes a test, after one more was read. -/
theorem name_find?_concat (test : Param α → Bool) (before : List (Param α)) (p : Param α) :
    ((before ++ [p]).find? test).map Param.name
      = ((before.find? test).map Param.name).or (if test p then some p.name else none) := by
  rw [List.find?_append]
  cases before.find? test with
  | some q => rfl
  | none => by_cases h : test p <;> simp [h]

/-- After one more parameter in which nothing is found. -/
theorem Seen.concat (h : Seen before omittable variadic) {p : Param α}
    (hp : p.flaw? omittable variadic = none) :
    Seen (before ++ [p]) (omittable.or (if p.omittable then some p.name else none))
      (variadic.or (if p.variadic then some p.name else none)) where
  omittable := by rw [name_find?_concat, ← h.omittable]
  variadic := by rw [name_find?_concat, ← h.variadic]
  single := by
    rw [List.filter_append, List.length_append]
    cases hv : p.variadic with
    | false => simpa [hv] using h.single
    | true =>
      rw [Param.flaw?_of_variadic hv, h.variadic, Option.map_map, Option.map_eq_none_iff,
        List.find?_eq_none] at hp
      have hnone : before.filter Param.variadic = [] := List.filter_eq_nil_iff.mpr hp
      simp [hnone, hv]

/-- What is found at a parameter behind those that were read is so. -/
theorem Seen.occursIn (h : Seen before omittable variadic) {p : Param α} {flaw : Flaw}
    (hp : p.flaw? omittable variadic = some flaw) (behind : List (Param α)) :
    flaw.OccursIn (before ++ p :: behind) := by
  cases hv : p.variadic with
  | true =>
    rw [Param.flaw?_of_variadic hv, h.variadic, Option.map_map, Option.map_eq_some_iff] at hp
    obtain ⟨first, hfirst, rfl⟩ := hp
    obtain ⟨hvariadic, front, between, rfl, hfront⟩ := List.find?_eq_some_iff_append.mp hfirst
    -- there was only one before, so that none stands between the two
    have hnone : between.filter Param.variadic = [] := by
      have hsingle := h.single
      rw [List.filter_append, List.filter_cons_of_pos hvariadic, List.length_append,
        List.length_cons] at hsingle
      exact List.length_eq_zero_iff.mp (by omega)
    refine .repeatedVariadic (fun r hr => ?_) hvariadic (fun r hr => ?_) hv
    · simpa using hfront r hr
    · simpa using List.filter_eq_nil_iff.mp hnone r hr
  | false =>
    cases ho : p.optional with
    | true =>
      rw [Param.flaw?_of_optional ho hv] at hp
      exact absurd hp (by simp)
    | false =>
      -- a required parameter is at fault if one before it can be omitted
      have homit : p.omittable = false := Param.omittable_eq_false_iff.mpr ⟨ho, hv⟩
      rw [Param.flaw?_of_required homit, h.omittable, Option.map_map,
        Option.map_eq_some_iff] at hp
      obtain ⟨first, hfirst, rfl⟩ := hp
      obtain ⟨homittable, front, between, rfl, hfront⟩ := List.find?_eq_some_iff_append.mp hfirst
      exact .requiredAfterOptional (fun r hr => by simpa using hfront r hr) homittable homit

theorem occursIn_of_misplaced? {ps : List (Param α)} {flaw : Flaw}
    (h : misplaced? ps = some flaw) : flaw.OccursIn ps := by
  have hsplit := List.takeWhile_append_dropWhile (p := fun p : Param α => !p.variadic) (l := ps)
  rw [misplaced?] at h
  split at h
  next p q rest hbehind =>
    obtain rfl := Option.some.inj h
    rw [hbehind] at hsplit
    -- what is not passed over is variadic
    have hp : p.variadic = true := by
      have hhead := List.head?_dropWhile_not (fun p : Param α => !p.variadic) ps
      rw [hbehind] at hhead
      simpa using hhead
    rw [← hsplit]
    refine .variadicNotLast (fun r hr => ?_) hp (List.cons_ne_nil q rest)
    simpa using List.mem_takeWhile_imp hr
  next => exact absurd h (by simp)

end Callable

namespace Ty

/-- What is found in parameters behind others is so, or it is inside one of their types. -/
theorem occursIn_of_paramsFlaw? {flaw : Flaw} {ps before : List (Param Ty)}
    {omittable variadic : Option String} (hseen : Callable.Seen before omittable variadic)
    (h : paramsFlaw? omittable variadic ps = some flaw) :
    flaw.OccursIn (before ++ ps) ∨ ∃ p ∈ ps, p.type.flaw? = some flaw := by
  induction ps generalizing before omittable variadic with
  | nil => exact absurd h (by simp [paramsFlaw?])
  | cons p ps ih =>
    rw [paramsFlaw?_cons] at h
    -- at the parameter itself, inside its type, or further on
    cases hp : p.flaw? omittable variadic with
    | some found =>
      rw [hp, Option.some_or] at h
      exact .inl (hseen.occursIn (hp.trans h) ps)
    | none =>
      rw [hp, Option.none_or] at h
      cases htype : p.type.flaw? with
      | some found =>
        rw [htype, Option.some_or] at h
        exact .inr ⟨p, List.mem_cons_self .., htype.trans h⟩
      | none =>
        rw [htype, Option.none_or] at h
        rcases ih (hseen.concat hp) h with hps | ⟨q, hq, hflaw⟩
        · rw [List.append_assoc] at hps
          exact .inl hps
        · exact .inr ⟨q, List.mem_cons_of_mem p hq, hflaw⟩

/-- A flaw that is found in a type is in a function type inside it. -/
theorem exists_occursIn_of_flaw? {flaw : Flaw} (t : Ty) (h : t.flaw? = some flaw) :
    ∃ s ∈ t.signature?, ∃ u : Signature, u.Within s ∧ flaw.OccursIn u.params := by
  induction t using Ty.induction with
  | function s params result =>
    refine ⟨s, rfl, ?_⟩
    rw [flaw?_function, Option.or_eq_some_iff, Option.or_eq_some_iff] at h
    rcases h with hparams | ⟨-, hplace | ⟨-, hresult⟩⟩
    · rcases occursIn_of_paramsFlaw? Callable.seen_nil hparams with hoccurs | ⟨p, hp, hflaw⟩
      · exact ⟨s, .self s, hoccurs⟩
      · obtain ⟨t, ht, u, hu, hoccurs⟩ := params p hp hflaw
        exact ⟨u, .param hp ht hu, hoccurs⟩
    · exact ⟨s, .self s, Callable.occursIn_of_misplaced? hplace⟩
    · obtain ⟨t, ht, u, hu, hoccurs⟩ := result hresult
      exact ⟨u, .result ht hu, hoccurs⟩
  | any | string | void => exact absurd h (by simp [flaw?])
  | unresolved name => exact absurd h (by simp [flaw?])
  | declared key => exact absurd h (by simp [flaw?])

end Ty

namespace Signature

/-- Nothing is found in a signature if and only if it is in shape, and a flaw that is found is
there, in the signature or in a function type inside it. -/
theorem flaw?_exact (s : Signature) : (s.flaw? = none ↔ s.InShape) ∧
    ∀ flaw, s.flaw? = some flaw → ∃ t : Signature, t.Within s ∧ flaw.OccursIn t.params := by
  refine ⟨s.flaw?_eq_none_iff, fun flaw hflaw => ?_⟩
  obtain ⟨_, hs, t, ht, hoccurs⟩ := Ty.exists_occursIn_of_flaw? (.function s) hflaw
  obtain rfl := Option.some.inj hs
  exact ⟨t, ht, hoccurs⟩

/-- A callback takes an optional key and then a value that it needs, which is found where it stands;
with the value in front, and more behind, nothing is. -/
theorem flaw?_exact_callback :
    let key : Param Ty := ⟨"key", .string, true, false⟩
    let value : Param Ty := .required "value" .any
    let more : Param Ty := ⟨"more", .any, true, true⟩
    let taking (params : List (Param Ty)) : Signature :=
      ⟨[.required "replacer" (.function ⟨params, .any⟩)], .string⟩
    let flaw : Flaw := .requiredAfterOptional "value" "key"
    (taking [key, value]).flaw? = some flaw ∧ ¬ (taking [key, value]).InShape ∧
      (∃ t : Signature, t.Within (taking [key, value]) ∧ flaw.OccursIn t.params) ∧
      (taking [value, key, more]).InShape := by
  intro key value more taking flaw
  have hflaw : (taking [key, value]).flaw? = some flaw := by decide +kernel
  have hnone : (taking [value, key, more]).flaw? = none := by decide +kernel
  refine ⟨hflaw, fun hshape => ?_, (flaw?_exact _).2 flaw hflaw, (flaw?_exact _).1.mp hnone⟩
  exact absurd ((flaw?_exact _).1.mpr hshape) (by simp [hflaw])

end Signature

end Overlay
