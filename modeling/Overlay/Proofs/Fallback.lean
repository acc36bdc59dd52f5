/-
Names that are taken for `any`.

Looking names up makes overloads alike in one way only.  A name that is found becomes a reference to
a declaration of the same name, so that two names that are found stay apart; a name that is not
found is taken for `any`, like any other such name.  Whether two overloads become alike can thus be
told before any name is looked up, from which names are found:

* `Ty.Corresponds.alike` — what stands at the same place of alike types is alike;
* `Signature.alike_ruleType_iff` — signatures become alike through `any` alone;
* `Signature.not_alike_ruleType` — references to different declarations keep them apart;
* `Merged.alike_resolve_iff` — so it is with the overloads of a merged member.
-/
import Overlay.Proofs.Collapse

namespace Overlay

/-! ### Places in two types -/

/-- The first type stands at a place of the third one, and the second type at the same place of the
fourth one. -/
inductive Ty.Corresponds (t t' : Ty) : Ty → Ty → Prop
  | here : Corresponds t t' t t'
  | param {a b : Signature} {i : Nat} {p q : Param Ty} (hp : a.params[i]? = some p)
    (hq : b.params[i]? = some q) (h : Corresponds t t' p.type q.type) :
    Corresponds t t' (.function a) (.function b)
  | result {a b : Signature} (h : Corresponds t t' a.result b.result) :
    Corresponds t t' (.function a) (.function b)

namespace Ty

variable {t t' u u' : Ty}

/-- At the same place of types that are alike stand types that are alike. -/
theorem Corresponds.alike (h : Corresponds t t' u u') (halike : u.alike u' = true) :
    t.alike t' = true := by
  rw [alike_iff] at halike ⊢
  induction h with
  | here => exact halike
  | @param a b i p q hp hq h ih =>
    rw [nameless_function, nameless_function, function.injEq] at halike
    have hparams : a.nameless.params[i]? = b.nameless.params[i]? := by rw [halike]
    simp only [Signature.nameless, List.getElem?_map, hp, hq, Option.map_some, Option.some.injEq,
      Param.nameless, Param.mk.injEq] at hparams
    exact ih hparams.2.1
  | result h ih =>
    rw [nameless_function, nameless_function, function.injEq] at halike
    exact ih (congrArg Callable.result halike)

/-- Replacing names leaves every place where it is. -/
theorem Corresponds.replace (f : String → Ty) (h : Corresponds t t' u u') :
    Corresponds (t.replace f) (t'.replace f) (u.replace f) (u'.replace f) := by
  induction h with
  | here => exact .here
  | @param a b i p q hp hq h ih =>
    rw [replace_function, replace_function]
    refine .param (i := i) (p := { p with type := p.type.replace f })
      (q := { q with type := q.type.replace f }) ?_ ?_ ih
    · simp [Signature.replace, hp]
    · simp [Signature.replace, hq]
  | result h ih =>
    rw [replace_function, replace_function]
    exact .result ih

end Ty

/-! ### Names that are found -/

namespace Lookup

/-- A name that stands for something in a scope is left alone, any other is taken for `any`. -/
def nameOrAny (lookup : Lookup) (scope : Scope) (name : String) : Ty :=
  if (lookup.target? scope name).isSome then .unresolved name else .any

variable (keys : List Key) (acrossModules : Bool) (scope : Scope)

/-- What a name stands for leads back to the name, if it is found. -/
theorem replace_unlink_ruleType_nameOrAny (name : String) :
    (ruleType keys acrossModules scope name).unlink.replace
        ((ofKeys keys acrossModules).nameOrAny scope)
      = (ofKeys keys acrossModules).nameOrAny scope name := by
  cases hfound : rule? keys acrossModules scope name with
  | none => simp [ruleType, nameOrAny, target?_ofKeys, hfound, Ty.unlink]
  | some key =>
    have hback : (ruleType keys acrossModules scope name).unlink = .unresolved name := by
      rw [ruleType, hfound, ← name_of_rule? hfound]
      rfl
    rw [hback, Ty.replace_unresolved]

/-- A name that is left alone can still be looked up. -/
theorem replace_unlink_nameOrAny_ruleType (name : String) :
    ((ofKeys keys acrossModules).nameOrAny scope name).unlink.replace
        (ruleType keys acrossModules scope)
      = ruleType keys acrossModules scope name := by
  cases hfound : rule? keys acrossModules scope name with
  | none => simp [ruleType, nameOrAny, target?_ofKeys, hfound, Ty.unlink]
  | some key =>
    have hkept : ((ofKeys keys acrossModules).nameOrAny scope name).unlink = .unresolved name := by
      simp [nameOrAny, target?_ofKeys, hfound, Ty.unlink]
    rw [hkept, Ty.replace_unresolved]

end Lookup

/-! ### Overloads of a merged member -/

/-- In the merged declarations of fragments no reference occurs before names are looked up. -/
theorem Merged.unlinked_of_fragments {options : Options} {fragments : List Fragment}
    {d : Declaration}
    (hd : d ∈ (ofRegistry options (fragments.foldl Registry.addFragment .empty)).declarations) :
    d.Unlinked := by
  rw [Registry.foldl_addFragment, declarations_eq_map_keys, List.mem_map] at hd
  obtain ⟨key, -, rfl⟩ := hd
  refine Merge.unlinked_union fun raw hraw => ?_
  exact Fragment.unlinked_flatMap_declarations fragments raw (Registry.mem_of_mem_wellFormed hraw)

/-- Signatures without references become alike by looking names up if and only if they are alike
with `any` in the place of the names that stand for nothing. -/
theorem Signature.alike_ruleType_iff (keys : List Key) (acrossModules : Bool) (scope : Scope)
    {a b : Signature} (ha : (Ty.function a).Unlinked) (hb : (Ty.function b).Unlinked) :
    (a.replace (Lookup.ruleType keys acrossModules scope)).alike
        (b.replace (Lookup.ruleType keys acrossModules scope)) = true
      ↔ (a.replace ((Lookup.ofKeys keys acrossModules).nameOrAny scope)).alike
        (b.replace ((Lookup.ofKeys keys acrossModules).nameOrAny scope)) = true := by
  constructor
  · exact alike_replace_of_alike_replace
      (Lookup.replace_unlink_ruleType_nameOrAny keys acrossModules scope) ha hb
  · exact alike_replace_of_alike_replace
      (Lookup.replace_unlink_nameOrAny_ruleType keys acrossModules scope) ha hb

/-- Signatures that refer to different declarations at the same place do not become alike. -/
theorem Signature.not_alike_ruleType {keys : List Key} {acrossModules : Bool} {scope : Scope}
    {a b : Signature} {name name' : String} {key key' : Key}
    (h : Ty.Corresponds (.unresolved name) (.unresolved name') (.function a) (.function b))
    (hkey : Lookup.rule? keys acrossModules scope name = some key)
    (hkey' : Lookup.rule? keys acrossModules scope name' = some key') (hne : key ≠ key') :
    ¬ (a.replace (Lookup.ruleType keys acrossModules scope)).alike
        (b.replace (Lookup.ruleType keys acrossModules scope)) = true := by
  intro halike
  have hplace := h.replace (Lookup.ruleType keys acrossModules scope)
  rw [Ty.replace_function, Ty.replace_function] at hplace
  have hkeys := hplace.alike (by rwa [Ty.alike_function])
  rw [Ty.replace_unresolved, Ty.replace_unresolved, Lookup.ruleType, Lookup.ruleType, hkey, hkey',
    Ty.alike_iff, Ty.nameless_declared, Ty.nameless_declared, Ty.declared.injEq] at hkeys
  exact hne hkeys

/-- Two overloads of a member that is merged from fragments become alike if and only if they are
alike with `any` in the place of the names that stand for nothing.  If they refer to different
declarations at the same place, no overload of the member stands for both afterwards. -/
theorem Merged.alike_resolve_iff (options : Options) (fragments : List Fragment) :
    let merged := ofRegistry options (fragments.foldl Registry.addFragment .empty)
    let lookup := merged.lookup options
    ∀ d ∈ merged.declarations, ∀ m ∈ d.members, ∀ a ∈ m.overloads, ∀ b ∈ m.overloads,
      let a' := (a.resolve lookup d.key.scope).signature
      let b' := (b.resolve lookup d.key.scope).signature
      (a'.alike b' = true ↔
        (a.signature.replace (lookup.nameOrAny d.key.scope)).alike
          (b.signature.replace (lookup.nameOrAny d.key.scope)) = true) ∧
      ∀ name name' key key',
        Ty.Corresponds (.unresolved name) (.unresolved name')
          (.function a.signature) (.function b.signature) →
        lookup.target? d.key.scope name = some key →
        lookup.target? d.key.scope name' = some key' → key ≠ key' →
        ∀ o ∈ (m.resolve lookup d.key.scope).overloads,
          ¬ (o.signature.alike a' = true ∧ o.signature.alike b' = true) := by
  intro merged lookup d hd m hm a ha b hb a' b'
  -- no signature refers to a declaration before its names are looked up
  have hunlinked : ∀ o ∈ m.overloads, (Ty.function o.signature).Unlinked :=
    fun o ho key hkey => unlinked_of_fragments hd key ⟨m, hm, o, ho, hkey⟩
  have hresolve : ∀ o : Overload, (o.resolve lookup d.key.scope).signature
      = o.signature.replace (Lookup.ruleType merged.keys options.acrossModules d.key.scope) :=
    fun o => congrArg Overload.signature
      (Overload.resolve_eq merged.keys options.acrossModules d.key.scope o)
  have ha' : a' = a.signature.replace
      (Lookup.ruleType merged.keys options.acrossModules d.key.scope) := hresolve a
  have hb' : b' = b.signature.replace
      (Lookup.ruleType merged.keys options.acrossModules d.key.scope) := hresolve b
  refine ⟨?_, fun name name' key key' hplace hkey hkey' hne o _ => ?_⟩
  · rw [ha', hb']
    exact Signature.alike_ruleType_iff merged.keys options.acrossModules d.key.scope
      (hunlinked a ha) (hunlinked b hb)
  · rintro ⟨hoa, hob⟩
    have htarget : ∀ name, lookup.target? d.key.scope name
        = Lookup.rule? merged.keys options.acrossModules d.key.scope name :=
      Lookup.target?_ofKeys merged.keys options.acrossModules d.key.scope
    rw [htarget] at hkey hkey'
    -- one that is alike both would make them alike, and they refer to different keys
    refine Signature.not_alike_ruleType hplace hkey hkey' hne ?_
    rw [← ha', ← hb']
    exact Signature.alike_trans (Signature.alike_symm hoa) hob

/-- A store that takes a type of its own module, a global one, one of another module, and two that
are declared nowhere. -/
def Fragment.store : Fragment :=
  let taking (type : String) : WrittenSignature := ⟨[.required "x" (some (.named type))], none⟩
  ⟨"index.d.ts", [.member "Reader" "read" (taking "string") (some "files"),
    .member "Writer" "write" (taking "string") none,
    .member "Pipe" "pipe" (taking "string") (some "pipes"),
    .member "Store" "use" (taking "Reader") (some "files"),
    .member "Store" "use" (taking "Writer") (some "files"),
    .member "Store" "use" (taking "Pipe") (some "files"),
    .member "Store" "use" (taking "A") (some "files"),
    .member "Store" "use" (taking "B") (some "files")]⟩

/-- The types that are declared nowhere make two overloads alike; the others stay apart, wherever
they are declared. -/
theorem Merged.alike_resolve_iff_store :
    let merged := ofRegistry .bare ([Fragment.store].foldl Registry.addFragment .empty)
    let lookup := merged.lookup .bare
    let files : Scope := .ambient "files"
    let use (type : String) (ordinal : UInt32) : Overload :=
      ⟨⟨[.required "x" (.unresolved type)], .any⟩, ⟨"index.d.ts", ordinal⟩⟩
    let m : Member := ⟨"use", [use "Reader" 3, use "Writer" 4, use "Pipe" 5, use "A" 6, use "B" 7]⟩
    let d : Declaration := ⟨⟨files, "Store"⟩, .interface [m], [⟨"index.d.ts", 3⟩]⟩
    d ∈ merged.declarations ∧
      ((use "A" 6).resolve lookup files).signature.alike
        ((use "B" 7).resolve lookup files).signature = true ∧
      ∀ o ∈ (m.resolve lookup files).overloads,
        ¬ (o.signature.alike ((use "Writer" 4).resolve lookup files).signature = true ∧
          o.signature.alike ((use "Pipe" 5).resolve lookup files).signature = true) := by
  intro merged lookup files use m d
  have hd : d ∈ merged.declarations := by decide +kernel
  have hm : m ∈ d.members := List.mem_singleton_self m
  refine ⟨hd, ?_, ?_⟩
  · -- `A` and `B` are declared nowhere, so that both are `any`
    have hiff := (alike_resolve_iff .bare [Fragment.store] d hd m hm (use "A" 6) (by decide)
      (use "B" 7) (by decide)).1
    exact hiff.mpr (by decide +kernel)
  · -- a `Writer` is declared globally, and a `Pipe` in another module
    exact (alike_resolve_iff .bare [Fragment.store] d hd m hm (use "Writer" 4) (by decide)
      (use "Pipe" 5) (by decide)).2 "Writer" "Pipe" ⟨.global, "Writer"⟩ ⟨.ambient "pipes", "Pipe"⟩
      (.param (i := 0) rfl rfl .here) (by decide +kernel) (by decide +kernel) (by decide)

end Overlay
