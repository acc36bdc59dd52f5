/-
Calls of signatures in shape.

Where a parameter list comes in its parts, a call fits if its arguments can be shared out: one for
each required parameter, then for as many optional ones as there are arguments, and all that are
left over for the variadic one.  So the numbers of arguments with which a call can fit are a range,
and arguments can be dropped from the end of a call as long as the required parameters have theirs.

* `Callable.Filled` — how arguments are shared out;
* `Callable.Parts.minArgs_eq`, `Callable.Parts.maxArgs?_eq` — the range, told from the parts;
* `Callable.Parts.parameterFor?_eq` — the parameter in an argument's place, or the variadic one;
* `Signature.accepts_iff_filled` — which calls fit;
* `Signature.accepts_take` — a call that fits still does with arguments dropped from its end;
* `Signature.calls_exact` — all of this of a signature in which no flaw is found.
-/
import Overlay.Proofs.Ty.Shape
import Overlay.Proofs.Ty.Weakening

namespace Overlay

/-- The arguments that are placed have the required parameters and some of the optional ones, each
the parameter in its place; those left over, if all these have arguments, have the variadic one. -/
structure Callable.Filled (required optional : List (Param Ty)) (rest : Option (Param Ty))
    (placed spread : List Ty) : Prop where
  least : required.length ≤ placed.length
  most : placed.length ≤ required.length + optional.length
  full : spread ≠ [] → placed.length = required.length + optional.length ∧ rest.isSome = true
  placed : ∀ i : Nat, ∀ argument ∈ placed[i]?, ∀ p ∈ (required ++ optional)[i]?,
    argument.fits p.type = true
  spread : ∀ argument ∈ spread, ∀ p ∈ rest, argument.fits p.type = true

/-! ### Numbers of arguments -/

namespace Callable.Parts

theorem find?_variadic {α : Type} {params required optional : List (Param α)}
    {rest : Option (Param α)} (h : Parts params required optional rest) :
    params.find? Param.variadic = rest := by
  have hnone : (required ++ optional).find? Param.variadic = none := by
    refine List.find?_eq_none.mpr fun p hp => ?_
    simp [h.variadic_eq_false hp]
  rw [h.params_eq, List.find?_append, hnone, Option.none_or]
  cases hrest : rest with
  | none => rfl
  | some p => exact List.find?_cons_of_pos (h.rest p hrest)

section

variable {α : Type} {c : Callable α} {required optional : List (Param α)} {rest : Option (Param α)}
  (h : Parts c.params required optional rest)

include h

/-- All required parameters need an argument, and no other does. -/
theorem minArgs_eq : c.minArgs = required.length := by
  have hrequired : ∀ p ∈ required, (!p.omittable) = true := fun p hp => by
    simp [Param.omittable_eq_false_iff.mpr (h.required p hp)]
  have hothers : (optional ++ rest.toList).takeWhile (fun p => !p.omittable) = [] := by
    cases hoptional : optional with
    | cons p _ =>
      have hp := h.optional p (by simp [hoptional])
      simp [Param.omittable, hp.1]
    | nil =>
      cases hrest : rest with
      | none => rfl
      | some p => simp [Param.omittable, h.rest p hrest]
  rw [minArgs, h.params_eq, List.append_assoc, List.takeWhile_append_of_pos hrequired, hothers,
    List.append_nil]

/-- Without a variadic parameter there is an argument for each of the others at most. -/
theorem maxArgs?_eq :
    c.maxArgs? = if rest.isSome then none else some (required.length + optional.length) := by
  have hany : c.params.any Param.variadic = rest.isSome := by
    rw [Bool.eq_iff_iff, List.any_eq_true, ← List.find?_isSome, h.find?_variadic]
  rw [maxArgs?, hany]
  cases rest with
  | some p => rfl
  | none => simp [h.params_eq]

end

/-- An argument has the parameter in its place, or else the variadic one. -/
theorem parameterFor?_eq {s : Signature} {required optional : List (Param Ty)}
    {rest : Option (Param Ty)} (h : Parts s.params required optional rest) (i : Nat) :
    s.parameterFor? i = (required ++ optional)[i]?.or rest := by
  rw [Signature.parameterFor?, h.find?_variadic, h.params_eq]
  by_cases hi : i < (required ++ optional).length
  · have hp := h.variadic_eq_false (List.getElem_mem hi)
    rw [List.getElem?_append_left hi, List.getElem?_eq_getElem hi, Option.some_or]
    simp [hp]
  · rw [List.getElem?_append_right (Nat.le_of_not_lt hi),
      List.getElem?_eq_none (Nat.le_of_not_lt hi), Option.none_or]
    -- behind the others there is only the variadic parameter
    cases hp : rest.toList[i - (required ++ optional).length]? with
    | none => rfl
    | some p =>
      have hrest : rest = some p := Option.mem_toList.mp (List.mem_of_getElem? hp)
      simp [hrest, h.rest p hrest]

end Callable.Parts

/-! ### Calls that fit -/

namespace Signature

section

variable {s : Signature} {required optional : List (Param Ty)} {rest : Option (Param Ty)}
  (h : Callable.Parts s.params required optional rest)

include h

/-- There is a parameter for each argument of a call that has not too many. -/
theorem exists_parameterFor? {i n : Nat} (hi : i < n) (hn : ∀ max ∈ Callable.maxArgs? s, n ≤ max) :
    ∃ p, s.parameterFor? i = some p := by
  rw [h.parameterFor?_eq]
  have hmax := h.maxArgs?_eq
  cases hrest : rest with
  | some p => exact Option.isSome_iff_exists.mp (by simp)
  | none =>
    rw [hrest] at hmax
    have hplace : i < (required ++ optional).length := by
      have hbound := hn _ hmax
      rw [List.length_append]
      omega
    exact ⟨_, by rw [List.getElem?_eq_getElem hplace, Option.some_or]⟩

theorem accepts_of_filled {placed spread : List Ty}
    (hfilled : Callable.Filled required optional rest placed spread) :
    s.accepts (placed ++ spread) = true := by
  rw [accepts_iff]
  -- enough arguments, not too many, and each of them fits
  refine ⟨?_, fun max hmax => ?_, fun i argument hargument => ?_⟩
  · have hleast := hfilled.least
    rw [h.minArgs_eq, List.length_append]
    omega
  · rw [h.maxArgs?_eq] at hmax
    cases hrest : rest with
    | some p => simp [hrest] at hmax
    | none =>
      -- without a variadic parameter nothing is left over
      have hspread : spread = [] := by
        by_contra hne
        simpa [hrest] using (hfilled.full hne).2
      simp only [hrest, Option.isSome_none, Bool.false_eq_true, ↓reduceIte, Option.mem_def,
        Option.some.injEq] at hmax
      rw [hspread, List.append_nil, ← hmax]
      exact hfilled.most
  · rw [h.parameterFor?_eq]
    have hmost := hfilled.most
    by_cases hi : i < placed.length
    · -- an argument that is placed has the parameter at its place
      have hplace : i < (required ++ optional).length := by
        rw [List.length_append]
        omega
      rw [List.getElem?_append_left hi] at hargument
      rw [List.getElem?_eq_getElem hplace, Option.some_or]
      exact ⟨_, rfl, hfilled.placed i argument hargument _ (List.getElem?_eq_getElem hplace)⟩
    · rw [List.getElem?_append_right (Nat.le_of_not_lt hi)] at hargument
      -- any other one is collected by the variadic parameter
      have hspread : argument ∈ spread := List.mem_of_getElem? hargument
      obtain ⟨hlength, hrest⟩ := hfilled.full (List.ne_nil_of_mem hspread)
      obtain ⟨p, hp⟩ := Option.isSome_iff_exists.mp hrest
      rw [List.getElem?_eq_none (by rw [List.length_append]; omega), Option.none_or, hp]
      exact ⟨p, rfl, hfilled.spread argument hspread p hp⟩

/-- A call that fits has its first arguments placed, as many as there are parameters to place them
at. -/
theorem filled_of_accepts {arguments : List Ty} (haccepts : s.accepts arguments = true) :
    Callable.Filled required optional rest
      (arguments.take (required.length + optional.length))
      (arguments.drop (required.length + optional.length)) := by
  rw [accepts_iff] at haccepts
  obtain ⟨hmin, hmax, hfits⟩ := haccepts
  rw [h.minArgs_eq] at hmin
  refine ⟨?_, ?_, fun hne => ⟨?_, ?_⟩, fun i argument hargument p hp => ?_,
    fun argument hargument p hp => ?_⟩
  · rw [List.length_take]
    omega
  · exact List.length_take_le ..
  · rw [List.length_take]
    have hlong := List.drop_eq_nil_iff.not.mp hne
    omega
  · -- arguments can only be left over where there is a variadic parameter
    rw [Option.isSome_iff_ne_none]
    rintro rfl
    exact hne (List.drop_eq_nil_iff.mpr (hmax _ h.maxArgs?_eq))
  · obtain ⟨hplace, -⟩ := List.getElem?_eq_some_iff.mp hp
    rw [List.length_append] at hplace
    rw [Option.mem_def, List.getElem?_take_of_lt hplace] at hargument
    obtain ⟨q, hq, hfit⟩ := hfits i argument hargument
    rw [h.parameterFor?_eq, Option.mem_def.mp hp, Option.some_or, Option.mem_some_iff] at hq
    rwa [hq]
  · obtain ⟨j, hj⟩ := List.mem_iff_getElem?.mp hargument
    rw [List.getElem?_drop] at hj
    -- behind the places, only the variadic parameter is left
    obtain ⟨q, hq, hfit⟩ := hfits _ argument hj
    rw [h.parameterFor?_eq, List.getElem?_eq_none (by rw [List.length_append]; omega),
      Option.none_or, Option.mem_def.mp hp, Option.mem_some_iff] at hq
    rwa [hq]

theorem accepts_iff_filled (arguments : List Ty) : s.accepts arguments = true ↔
    ∃ placed spread, arguments = placed ++ spread ∧
      Callable.Filled required optional rest placed spread := by
  constructor
  · intro haccepts
    exact ⟨_, _, (List.take_append_drop ..).symm, filled_of_accepts h haccepts⟩
  · rintro ⟨placed, spread, rfl, hfilled⟩
    exact accepts_of_filled h hfilled

/-- Every number of arguments in the range is that of a call that fits. -/
theorem exists_accepts_iff (n : Nat) :
    (∃ arguments, arguments.length = n ∧ s.accepts arguments = true) ↔
      Callable.minArgs s ≤ n ∧ ∀ max ∈ Callable.maxArgs? s, n ≤ max := by
  constructor
  · rintro ⟨arguments, rfl, haccepts⟩
    obtain ⟨hmin, hmax, -⟩ := (accepts_iff s arguments).mp haccepts
    exact ⟨hmin, hmax⟩
  · rintro ⟨hmin, hmax⟩
    -- arguments of which nothing is known fit everywhere
    refine ⟨List.replicate n .any, List.length_replicate, ?_⟩
    rw [accepts_iff, List.length_replicate]
    refine ⟨hmin, hmax, fun i argument hargument => ?_⟩
    obtain ⟨hi, rfl⟩ := List.getElem?_eq_some_iff.mp hargument
    rw [List.length_replicate] at hi
    obtain ⟨p, hp⟩ := exists_parameterFor? h hi hmax
    refine ⟨p, hp, ?_⟩
    rw [List.getElem_replicate, Ty.fits, Ty.any_fit]

end

/-- A call that fits still does with arguments dropped from its end, as long as there are enough. -/
theorem accepts_take {s : Signature} {arguments : List Ty} (h : s.accepts arguments = true)
    {n : Nat} (hn : Callable.minArgs s ≤ n) : s.accepts (arguments.take n) = true := by
  rw [accepts_iff] at h ⊢
  obtain ⟨hmin, hmax, hfits⟩ := h
  rw [List.length_take]
  refine ⟨Nat.le_min.mpr ⟨hn, hmin⟩, fun max hm => ?_, fun i argument hargument => ?_⟩
  · exact Nat.le_trans (Nat.min_le_right ..) (hmax max hm)
  · rw [List.getElem?_take] at hargument
    split at hargument
    · exact hfits i argument hargument
    · exact absurd hargument (by simp)

/-- Where no flaw is found, the parameters come in their parts, and these tell which calls fit. -/
theorem calls_exact {s : Signature} (h : s.flaw? = none) :
    (∃ required optional rest, Callable.Parts s.params required optional rest) ∧
    ∀ required optional rest, Callable.Parts s.params required optional rest →
      (∀ arguments, s.accepts arguments = true ↔ ∃ placed spread, arguments = placed ++ spread ∧
        Callable.Filled required optional rest placed spread) ∧
      Callable.minArgs s = required.length ∧
      Callable.maxArgs? s
        = (if rest.isSome then none else some (required.length + optional.length)) ∧
      (∀ n, (∃ arguments, arguments.length = n ∧ s.accepts arguments = true) ↔
        Callable.minArgs s ≤ n ∧ ∀ max ∈ Callable.maxArgs? s, n ≤ max) ∧
      ∀ arguments n, s.accepts arguments = true → Callable.minArgs s ≤ n →
        s.accepts (arguments.take n) = true := by
  obtain ⟨order, -, -⟩ := s.flaw?_eq_none_iff.mp h
  refine ⟨order, fun required optional rest hparts => ?_⟩
  exact ⟨accepts_iff_filled hparts, hparts.minArgs_eq, hparts.maxArgs?_eq,
    exists_accepts_iff hparts, fun arguments n haccepts hn => accepts_take haccepts hn⟩

/-- A text, a callback that may be left off, and more texts: the callback has its place, and what
comes behind it is left over. -/
theorem calls_exact_texts :
    let text : Param Ty := .required "text" .string
    let done : Param Ty := ⟨"done", .function Signature.untyped, true, false⟩
    let more : Param Ty := ⟨"more", .string, false, true⟩
    let s : Signature := ⟨[text, done, more], .void⟩
    s.flaw? = none ∧ Callable.Parts s.params [text] [done] (some more) ∧
      (∃ placed spread, [.string, .any, .string] = placed ++ spread ∧
        Callable.Filled [text] [done] (some more) placed spread) ∧
      s.accepts ([.string, .any, .string].take 1) = true ∧ s.accepts [.string, .string] = false ∧
      Callable.minArgs s = 1 ∧ Callable.maxArgs? s = none := by
  intro text done more s
  have hflaw : s.flaw? = none := by decide +kernel
  -- the callback is the last parameter with a place of its own
  have hparts : Callable.Parts s.params [text] [done] (some more) :=
    ⟨rfl, by decide, by decide, by decide⟩
  obtain ⟨haccepts, hmin, hmax, -, htake⟩ := (calls_exact hflaw).2 _ _ _ hparts
  have hfits : s.accepts [.string, .any, .string] = true := by decide +kernel
  exact ⟨hflaw, hparts, (haccepts _).mp hfits, htake _ 1 hfits (by rw [hmin]; decide),
    by decide +kernel, hmin, hmax⟩

end Signature

end Overlay
