/-
Which overloads collapse.

Overloads collapse when they are alike with their names looked up.  A name that is found becomes a
reference to a declaration of that name, so that it cannot become alike another one.  If there was
no reference before, which overloads collapse depends on which names are found, and not on where:

* `Ty.unlink_replace` — going back from references to names;
* `Signature.alike_replace_of_alike_replace` — signatures that become alike by either replacement;
* `Member.collapsedSites_congr` — lookups that make the same overloads of a member alike collapse
  the same ones;
* `Declaration.collapsedSites_of_unlinked` — so do lookups that find the same names.
-/
import Overlay.Proofs.Closed

namespace Overlay

/-! ### Back to names -/

mutual

/-- The type with the name of its declaration in the place of each reference. -/
def Ty.unlink : Ty → Ty
  | .declared key => .unresolved key.name
  | .function ⟨ps, r⟩ => .function ⟨Ty.unlinkParams ps, r.unlink⟩
  | .any => .any
  | .string => .string
  | .void => .void
  | .unresolved name => .unresolved name
termination_by structural t => t

/-- The same for the types of parameters. -/
def Ty.unlinkParams : List (Param Ty) → List (Param Ty)
  | [] => []
  | ⟨name, t, optional, variadic⟩ :: ps =>
    ⟨name, t.unlink, optional, variadic⟩ :: Ty.unlinkParams ps
termination_by structural ps => ps

end

def Signature.unlink (s : Signature) : Signature :=
  ⟨s.params.map fun p => { p with type := p.type.unlink }, s.result.unlink⟩

namespace Ty

theorem unlinkParams_eq_map (ps : List (Param Ty)) :
    unlinkParams ps = ps.map fun p => { p with type := p.type.unlink } := by
  induction ps with
  | nil => rfl
  | cons p ps ih => rw [unlinkParams, ih]; rfl

@[simp] theorem unlink_function (s : Signature) : (function s).unlink = function s.unlink := by
  obtain ⟨ps, r⟩ := s
  rw [unlink, unlinkParams_eq_map]
  rfl

theorem nameless_unlink (t : Ty) : t.unlink.nameless = t.nameless.unlink := by
  induction t using Ty.induction with
  | function s params result =>
    have hparams : s.unlink.params.map Param.nameless = s.nameless.unlink.params := by
      simp only [Signature.unlink, Signature.nameless, List.map_map]
      refine List.map_congr_left fun p hp => ?_
      simp [Param.nameless, params p hp]
    rw [unlink_function, nameless_function, nameless_function, unlink_function]
    exact congrArg function (Callable.mk.injEq .. ▸ ⟨hparams, result⟩)
  | any | string | void => rfl
  | unresolved name => rfl
  | declared key => rfl

/-- In a type without references, only what comes in the place of a name goes back. -/
theorem unlink_replace (f : String → Ty) {t : Ty} (h : t.Unlinked) :
    (t.replace f).unlink = t.replace fun name => (f name).unlink := by
  induction t using Ty.induction with
  | function s params result =>
    obtain ⟨hparams, hresult⟩ := (unlinked_function_iff s).mp h
    have hps : (s.replace f).unlink.params
        = (s.replace fun name => (f name).unlink).params := by
      simp only [Signature.replace, Signature.unlink, List.map_map]
      refine List.map_congr_left fun p hp => ?_
      simp [params p hp (hparams p hp)]
    rw [replace_function, unlink_function, replace_function]
    exact congrArg function (Callable.mk.injEq .. ▸ ⟨hps, result hresult⟩)
  | any | string | void => rfl
  | unresolved name => rw [replace_unresolved, replace_unresolved]
  | declared key => exact absurd .here (h key)

/-- What comes in the place of names can have names, too. -/
theorem replace_replace (f g : String → Ty) (t : Ty) :
    (t.replace f).replace g = t.replace fun name => (f name).replace g := by
  induction t using Ty.induction with
  | function s params result =>
    have hparams : ((s.replace f).replace g).params
        = (s.replace fun name => (f name).replace g).params := by
      simp only [Signature.replace, List.map_map]
      refine List.map_congr_left fun p hp => ?_
      simp [params p hp]
    rw [replace_function, replace_function, replace_function]
    exact congrArg function (Callable.mk.injEq .. ▸ ⟨hparams, result⟩)
  | any | string | void => rfl
  | unresolved name => rw [replace_unresolved, replace_unresolved]
  | declared key => rfl

end Ty

/-- If what one replacement puts in the place of a name can be followed by the other, signatures
that become alike by the one become alike by the other. -/
theorem Signature.alike_replace_of_alike_replace {f g : String → Ty}
    (hfg : ∀ name, (f name).unlink.replace g = g name) {a b : Signature}
    (ha : (Ty.function a).Unlinked) (hb : (Ty.function b).Unlinked)
    (h : (a.replace f).alike (b.replace f) = true) :
    (a.replace g).alike (b.replace g) = true := by
  -- without the keys that `f` has put there, the signatures are still alike
  have hunlink : ((Ty.function a).replace f).unlink.nameless
      = ((Ty.function b).replace f).unlink.nameless := by
    rw [← Ty.alike_function, Ty.alike_iff] at h
    rw [Ty.nameless_unlink, Ty.nameless_unlink, Ty.replace_function, Ty.replace_function, h]
  rw [Ty.unlink_replace f ha, Ty.unlink_replace f hb, ← Ty.alike_iff, Ty.replace_function,
    Ty.replace_function, Ty.alike_function] at hunlink
  -- what `f` has put there is then replaced by `g`, as the names would have been
  have hagain : ∀ s : Signature,
      (s.replace fun name => (f name).unlink).replace g = s.replace g := by
    intro s
    have htwice := Ty.replace_replace (fun name => (f name).unlink) g (.function s)
    simp only [hfg, Ty.replace_function, Ty.function.injEq] at htwice
    exact htwice
  have hreplace := Signature.alike_replace g hunlink
  rwa [hagain, hagain] at hreplace

/-! ### Overloads that become alike -/

/-- Lists that are made of the same one, and in which the same overloads are alike, are split in the
same way. -/
theorem Overload.split_map_congr {f g : Overload → Overload} {os : List Overload}
    (h : ∀ a ∈ os, ∀ b ∈ os,
      (f a).signature.alike (f b).signature = (g a).signature.alike (g b).signature) :
    ∃ kept gone : List Overload, kept ⊆ os ∧ split (os.map f) = (kept.map f, gone.map f) ∧
      split (os.map g) = (kept.map g, gone.map g) := by
  induction os using List.reverseRecOn with
  | nil => exact ⟨[], [], List.Subset.refl _, rfl, rfl⟩
  | append_singleton os o ih =>
    obtain ⟨kept, gone, hkept, hf, hg⟩ := ih fun a ha b hb =>
      h a (List.mem_append_left _ ha) b (List.mem_append_left _ hb)
    -- the last overload is alike a kept one of the one list if and only if it is in the other
    have hin : (f o).isIn (kept.map f) = (g o).isIn (kept.map g) := by
      rw [isIn, isIn, List.any_map, List.any_map, Bool.eq_iff_iff, List.any_eq_true,
        List.any_eq_true]
      refine exists_congr fun other => and_congr_right fun hother => ?_
      have hmem := List.mem_append_left [o] (hkept hother)
      have hsame := h other hmem o (List.mem_append_right _ (List.mem_singleton_self o))
      show (f other).signature.alike (f o).signature = true ↔ _
      rw [hsame]
      rfl
    rw [List.map_append, List.map_append, List.map_singleton, List.map_singleton, split_concat,
      split_concat, hf, hg]
    -- it goes to the end of the same part in both
    by_cases halike : (g o).isIn (kept.map g)
    · refine ⟨kept, gone ++ [o], fun a ha => List.mem_append_left _ (hkept ha), ?_, ?_⟩
      · rw [if_pos (hin.trans halike), List.map_append, List.map_singleton]
      · rw [if_pos halike, List.map_append, List.map_singleton]
    · refine ⟨kept ++ [o], gone, List.append_subset.mpr ⟨fun a ha => List.mem_append_left _
        (hkept ha), List.subset_append_right _ _⟩, ?_, ?_⟩
      · rw [if_neg (hin ▸ halike), List.map_append, List.map_singleton]
      · rw [if_neg halike, List.map_append, List.map_singleton]

/-- Lookups that make the same overloads of a member alike collapse the same ones. -/
theorem Member.collapsedSites_congr {lookup lookup' : Lookup} {scope : Scope} {m : Member}
    (h : ∀ a ∈ m.overloads, ∀ b ∈ m.overloads,
      (a.resolve lookup scope).signature.alike (b.resolve lookup scope).signature
        = (a.resolve lookup' scope).signature.alike (b.resolve lookup' scope).signature) :
    m.collapsedSites lookup scope = m.collapsedSites lookup' scope := by
  obtain ⟨kept, gone, -, hsplit, hsplit'⟩ := Overload.split_map_congr h
  have hsite : ∀ lookup, Overload.site ∘ Overload.resolve lookup scope = Overload.site :=
    fun _ => rfl
  rw [collapsedSites, collapsedSites, resolved, resolved]
  by_cases hgoes : m.hasReferences && m.isOverloaded
  · rw [if_pos hgoes, if_pos hgoes, hsplit, hsplit', List.map_map, List.map_map, hsite, hsite]
  · rw [if_neg hgoes, if_neg hgoes]

/-! ### Lookups that find the same -/

theorem Lookup.name_of_rule? {keys : List Key} {acrossModules : Bool} {scope : Scope}
    {name : String} {key : Key} (h : rule? keys acrossModules scope name = some key) :
    key.name = name := by
  rw [rule?] at h
  split at h
  next => rw [← Option.some.inj h]
  next =>
    split at h
    next => rw [← Option.some.inj h]
    next =>
      split at h
      next =>
        have hkey := List.find?_some h
        exact (of_decide_eq_true hkey).2
      next => exact absurd h (by simp)

/-- What a name stands for leads back to the name, and from there to what it stands for by another
rule, if that finds no more names. -/
theorem Lookup.replace_unlink_ruleType {keys keys' : List Key} {acrossModules acrossModules' : Bool}
    {scope : Scope} (h : ∀ name, rule? keys acrossModules scope name = none →
      rule? keys' acrossModules' scope name = none) (name : String) :
    (ruleType keys acrossModules scope name).unlink.replace (ruleType keys' acrossModules' scope)
      = ruleType keys' acrossModules' scope name := by
  cases hfound : rule? keys acrossModules scope name with
  | none =>
    rw [ruleType, ruleType, hfound, h name hfound]
    rfl
  | some key =>
    have hback : (ruleType keys acrossModules scope name).unlink = .unresolved name := by
      rw [ruleType, hfound, ← name_of_rule? hfound]
      rfl
    rw [hback, Ty.replace_unresolved]

/-- Where the names in a declaration stand for the same, the same overloads collapse. -/
theorem Declaration.collapsedSites_congr {keys keys' : List Key} {acrossModules : Bool}
    {d : Declaration} (h : ∀ m ∈ d.members, ∀ o ∈ m.overloads, ∀ name ∈ o.signature.references,
      Lookup.ruleType keys acrossModules d.key.scope name
        = Lookup.ruleType keys' acrossModules d.key.scope name) :
    d.collapsedSites (.ofKeys keys acrossModules)
      = d.collapsedSites (.ofKeys keys' acrossModules) := by
  rw [collapsedSites, collapsedSites]
  refine List.flatMap_congr fun m hm => Member.collapsedSites_congr fun a ha b hb => ?_
  simp only [Overload.resolve_eq]
  rw [Signature.replace_congr (h m hm a ha), Signature.replace_congr (h m hm b hb)]

/-- Where there was no reference before, the same overloads collapse if the same names are found. -/
theorem Declaration.collapsedSites_of_unlinked {keys keys' : List Key} {acrossModules : Bool}
    {d : Declaration} (hd : d.Unlinked)
    (h : ∀ name, Lookup.rule? keys acrossModules d.key.scope name = none
      ↔ Lookup.rule? keys' acrossModules d.key.scope name = none) :
    d.collapsedSites (.ofKeys keys acrossModules)
      = d.collapsedSites (.ofKeys keys' acrossModules) := by
  rw [collapsedSites, collapsedSites]
  refine List.flatMap_congr fun m hm => Member.collapsedSites_congr fun a ha b hb => ?_
  have hunlinked : ∀ o ∈ m.overloads, (Ty.function o.signature).Unlinked :=
    fun o ho key hkey => hd key ⟨m, hm, o, ho, hkey⟩
  simp only [Overload.resolve_eq]
  rw [Bool.eq_iff_iff]
  constructor
  · exact Signature.alike_replace_of_alike_replace
      (Lookup.replace_unlink_ruleType fun name => (h name).mp) (hunlinked a ha) (hunlinked b hb)
  · exact Signature.alike_replace_of_alike_replace
      (Lookup.replace_unlink_ruleType fun name => (h name).mpr) (hunlinked a ha) (hunlinked b hb)

end Overlay
