/-
Leaving malformed declarations out.

A declaration with a malformed signature is dropped when its key is merged, so a table should be the
same whether or not it was ever registered.  It nearly is: only the place of a key comes from its
first declaration, sound or not, and a name that is looked up across modules is found under the
first key that has it.  So the two tables may lead such a name to different modules:

* `Registry.wellFormed_filter` — the well-formed declarations of a key are the same;
* `Lookup.rule?_of_perm` — what a name stands for depends on the order of keys across modules only;
* `Table.sameButAcross_filter_wellFormed` — what the two tables have in common;
* `Table.ofRegistry_shadowed` — declarations of which the tables differ.
-/
import Overlay.Proofs.Collapse
import Overlay.Proofs.Reports

namespace Overlay

/-! ### What may differ -/

/-- The names in the well-formed declarations of a key. -/
def Registry.namesIn (registry : Registry) (key : Key) : List String :=
  ((registry.wellFormed key).flatMap Declaration.overloads).flatMap fun p =>
    p.2.signature.references

/-- Every name in the well-formed declarations of a key stands for the same in the tables of two
registries. -/
def Registry.SameNames (options : Options) (registry registry' : Registry) (key : Key) : Prop :=
  ∀ name ∈ registry.namesIn key,
    Table.typeIn options registry key.scope name = Table.typeIn options registry' key.scope name

/-- The first key of a name in the body of a module, in the order in which keys were registered
first, that has a well-formed declaration. -/
def Registry.firstAcross? (registry : Registry) (name : String) : Option Key :=
  registry.keys.find? fun key =>
    registry.wellFormed key ≠ [] ∧ key.scope ≠ .global ∧ key.name = name

/-- A name in a scope is found across modules, and each of two registries has another key first. -/
structure Registry.SplitAcross (options : Options) (registry registry' : Registry) (scope : Scope)
    (name : String) : Prop where
  acrossModules : options.acrossModules = true
  notOwn : registry.wellFormed ⟨scope, name⟩ = []
  notGlobal : registry.wellFormed (.ofGlobal name) = []
  split : ∃ key key', key ≠ key' ∧
    registry.firstAcross? name = some key ∧ registry'.firstAcross? name = some key' ∧
    Table.typeIn options registry scope name = .declared key ∧
    Table.typeIn options registry' scope name = .declared key'

/-- What tables of two registries have in common where names that are found across modules may lead
to different keys. -/
structure Table.SameButAcross (options : Options) (registry registry' : Registry) : Prop where
  keys : ∀ key, ((ofRegistry options registry).get? key).isSome
    = ((ofRegistry options registry').get? key).isSome
  /-- Under a key both have one merged declaration, with its names looked up. -/
  merged : ∀ key, ∃ merged? : Option Declaration,
    (ofRegistry options registry).get? key
        = merged?.map (Declaration.ruled (typeIn options registry)) ∧
      (ofRegistry options registry').get? key
        = merged?.map (Declaration.ruled (typeIn options registry'))
  names : ∀ scope name,
    typeIn options registry scope name = typeIn options registry' scope name ∨
      Registry.SplitAcross options registry registry' scope name
  declarations : ∀ key, Registry.SameNames options registry registry' key →
    (ofRegistry options registry).get? key = (ofRegistry options registry').get? key
  unknownTypes :
    (Diagnostic.withKind .unknownType (ofRegistry options registry).diagnostics).Perm
      (Diagnostic.withKind .unknownType (ofRegistry options registry').diagnostics)
  /-- A name that leads to different keys can make different overloads collapse, but only beside a
  reference that was there before names were looked up. -/
  diagnostics : (∀ key, Registry.SameNames options registry registry' key ∨
      ∀ d ∈ registry.wellFormed key, d.Unlinked) →
    ((ofRegistry options registry).diagnostics.filter fun r => r.kind ≠ .malformedSignature).Perm
      ((ofRegistry options registry').diagnostics.filter fun r => r.kind ≠ .malformedSignature)

/-! ### Lookup -/

namespace Lookup

/-- Of keys in another order, a name stands for the same, unless it is found across modules. -/
theorem rule?_of_perm {keys keys' : List Key} (h : keys.Perm keys') (acrossModules : Bool)
    (scope : Scope) (name : String) :
    rule? keys acrossModules scope name = rule? keys' acrossModules scope name ∨
      acrossModules = true ∧ ⟨scope, name⟩ ∉ keys ∧ .ofGlobal name ∉ keys ∧
        ∃ key key', key ≠ key' ∧ rule? keys acrossModules scope name = some key ∧
          rule? keys' acrossModules scope name = some key' ∧
          keys.find? (fun key => key.scope ≠ .global ∧ key.name = name) = some key ∧
          keys'.find? (fun key => key.scope ≠ .global ∧ key.name = name) = some key' := by
  -- the own scope comes first, then the global one, then the bodies of all modules
  by_cases hown : (⟨scope, name⟩ : Key) ∈ keys
  · exact .inl (by rw [rule?, rule?, if_pos hown, if_pos (h.mem_iff.mp hown)])
  have hown' : (⟨scope, name⟩ : Key) ∉ keys' := fun hmem => hown (h.mem_iff.mpr hmem)
  by_cases hglobal : (⟨.global, name⟩ : Key) ∈ keys
  · exact .inl (by rw [rule?, rule?, if_neg hown, if_pos hglobal, if_neg hown',
      if_pos (h.mem_iff.mp hglobal)])
  have hglobal' : (⟨.global, name⟩ : Key) ∉ keys' := fun hmem => hglobal (h.mem_iff.mpr hmem)
  rw [rule?, rule?, if_neg hown, if_neg hglobal, if_neg hown', if_neg hglobal']
  by_cases hacross : acrossModules
  · rw [if_pos hacross, if_pos hacross]
    by_cases hsame : keys.find? (fun key => key.scope ≠ .global ∧ key.name = name)
        = keys'.find? (fun key => key.scope ≠ .global ∧ key.name = name)
    · exact .inl hsame
    -- one of the lists has such a key, and so has the other
    have hsome : (keys.find? fun key => key.scope ≠ .global ∧ key.name = name).isSome
        = (keys'.find? fun key => key.scope ≠ .global ∧ key.name = name).isSome := by
      rw [Bool.eq_iff_iff, List.find?_isSome, List.find?_isSome]
      simp only [h.mem_iff]
    cases hkey : keys.find? fun key => key.scope ≠ .global ∧ key.name = name with
    | none =>
      rw [hkey] at hsome hsame
      have hnone := Option.isSome_eq_false_iff.mp hsome.symm
      exact absurd (Option.isNone_iff_eq_none.mp hnone).symm hsame
    | some key =>
      rw [hkey] at hsome hsame
      obtain ⟨key', hkey'⟩ := Option.isSome_iff_exists.mp hsome.symm
      rw [hkey'] at hsame ⊢
      exact .inr ⟨hacross, hown, hglobal, key, key', fun e => hsame (congrArg some e),
        rfl, rfl, rfl, rfl⟩
  · exact .inl (by rw [if_neg hacross, if_neg hacross])

/-- Whether a name stands for anything does not depend on the order of keys. -/
theorem rule?_eq_none_iff_of_perm {keys keys' : List Key} (h : keys.Perm keys')
    (acrossModules : Bool) (scope : Scope) (name : String) :
    rule? keys acrossModules scope name = none ↔ rule? keys' acrossModules scope name = none := by
  rcases rule?_of_perm h acrossModules scope name with hsame | ⟨-, -, -, _, _, -, hkey, hkey', -⟩
  · rw [hsame]
  · rw [hkey, hkey']
    exact ⟨nofun, nofun⟩

theorem ruleReports_of_perm {keys keys' : List Key} (h : keys.Perm keys') (acrossModules : Bool)
    (ds : List Declaration) :
    ruleReports keys acrossModules ds = ruleReports keys' acrossModules ds := by
  simp only [ruleReports, rule?_eq_none_iff_of_perm h]

end Lookup

/-! ### Declarations -/

/-- Only what the names in a declaration stand for matters. -/
theorem Declaration.ruled_congr {rule rule' : Scope → String → Ty} {d : Declaration}
    (h : ∀ m ∈ d.members, ∀ o ∈ m.overloads, ∀ name ∈ o.signature.references,
      rule d.key.scope name = rule' d.key.scope name) : d.ruled rule = d.ruled rule' := by
  obtain ⟨key, body, sites⟩ := d
  cases body with
  | stub => rfl
  | interface ms =>
    have hmembers : ms.map (fun m => (⟨m.name, Overload.firsts (m.overloads.map fun o =>
          ⟨o.signature.replace (rule key.scope), o.site⟩)⟩ : Member))
        = ms.map fun m => ⟨m.name, Overload.firsts (m.overloads.map fun o =>
          ⟨o.signature.replace (rule' key.scope), o.site⟩)⟩ := by
      refine List.map_congr_left fun m hm => ?_
      congr 2
      refine List.map_congr_left fun o ho => ?_
      rw [Signature.replace_congr (h m hm o ho)]
    rw [ruled, ruled]
    simp only [hmembers]

theorem Registry.mem_namesIn_of_union {registry : Registry} {key : Key} {m : Member} {o : Overload}
    {name : String} (hm : m ∈ (Merge.union key (registry.wellFormed key)).members)
    (ho : o ∈ m.overloads) (hname : name ∈ o.signature.references) :
    name ∈ registry.namesIn key := by
  obtain ⟨d, hd, m', hm', -, ho'⟩ := Merge.exists_mem_of_mem_union hm ho
  refine List.mem_flatMap.mpr ⟨(m'.name, o), List.mem_flatMap.mpr ⟨d, hd, ?_⟩, hname⟩
  exact List.mem_flatMap.mpr ⟨m', hm', List.mem_map.mpr ⟨o, ho', rfl⟩⟩

/-! ### Tables -/

/-- A key has the same well-formed declarations when the others are left out beforehand. -/
theorem Registry.wellFormed_filter (ds : List Declaration) (key : Key) :
    (ofList (ds.filter fun d => d.WellFormed)).wellFormed key = (ofList ds).wellFormed key := by
  rw [wellFormed, wellFormed, sites_ofList, sites_ofList, List.filter_filter, List.filter_filter,
    List.filter_filter]
  refine List.filter_congr fun d _ => ?_
  by_cases h : d.WellFormed <;> simp [h]

namespace Merged

variable (options : Options) (ds : List Declaration)

/-- The first key across modules is the first of those that were merged. -/
theorem find?_keys_ofRegistry (name : String) : (ofRegistry options (.ofList ds)).keys.find?
      (fun key => key.scope ≠ .global ∧ key.name = name)
    = (Registry.ofList ds).firstAcross? name := by
  rw [keys_ofRegistry, List.find?_filter, Registry.firstAcross?]
  congr 1
  funext key
  rw [Bool.eq_iff_iff]
  simp

end Merged

/-! ### Tables of the same well-formed declarations -/

section

variable {options : Options} {ds ds' : List Declaration}
  (h : ∀ key, (Registry.ofList ds').wellFormed key = (Registry.ofList ds).wellFormed key)

include h

namespace Merged

theorem keys_perm_of_wellFormed : (ofRegistry options (.ofList ds)).keys.Perm
    (ofRegistry options (.ofList ds')).keys := by
  rw [List.perm_ext_iff_of_nodup (nodup_keys_ofRegistry options ds)
    (nodup_keys_ofRegistry options ds')]
  intro key
  rw [mem_keys_ofRegistry, mem_keys_ofRegistry, h]

theorem declarations_perm_of_wellFormed : (ofRegistry options (.ofList ds)).declarations.Perm
    (ofRegistry options (.ofList ds')).declarations := by
  rw [declarations_eq_map_keys, declarations_eq_map_keys]
  simp only [h]
  exact (keys_perm_of_wellFormed h).map _

theorem ambiguities_perm_of_wellFormed :
    (Diagnostic.withKind .overloadAmbiguity (ofRegistry options (.ofList ds)).diagnostics).Perm
      (Diagnostic.withKind .overloadAmbiguity
        (ofRegistry options (.ofList ds')).diagnostics) := by
  refine (perm_ambiguities options ds).symm.trans (.trans ?_ (perm_ambiguities options ds'))
  split
  · exact (declarations_perm_of_wellFormed h).flatMap_right _
  · exact .refl _

end Merged

namespace Table

theorem typeIn_or_splitAcross (scope : Scope) (name : String) :
    typeIn options (.ofList ds) scope name = typeIn options (.ofList ds') scope name ∨
      Registry.SplitAcross options (.ofList ds) (.ofList ds') scope name := by
  rw [typeIn, typeIn, Lookup.ruleType, Lookup.ruleType]
  have hkeys : (Merged.ofRegistry options (.ofList ds)).keys.Perm
      (Merged.ofRegistry options (.ofList ds')).keys := Merged.keys_perm_of_wellFormed h
  rcases Lookup.rule?_of_perm hkeys options.acrossModules scope name with
    hsame | ⟨hacross, hown, hglobal, key, key', hne, hkey, hkey', hfirst, hfirst'⟩
  · exact .inl (by rw [hsame])
  · refine .inr ⟨hacross, ?_, ?_, key, key', hne, ?_, ?_, ?_, ?_⟩
    · rwa [Merged.mem_keys_ofRegistry, not_not] at hown
    · rwa [Merged.mem_keys_ofRegistry, not_not] at hglobal
    · rwa [Merged.find?_keys_ofRegistry] at hfirst
    · rwa [Merged.find?_keys_ofRegistry] at hfirst'
    · rw [typeIn, Lookup.ruleType, hkey]
    · rw [typeIn, Lookup.ruleType, hkey']

theorem get?_of_wellFormed {key : Key}
    (hnames : Registry.SameNames options (.ofList ds) (.ofList ds') key) :
    (ofRegistry options (.ofList ds)).get? key = (ofRegistry options (.ofList ds')).get? key := by
  rw [get?_ofRegistry, get?_ofRegistry, h]
  have hruled : (Merge.union key ((Registry.ofList ds).wellFormed key)).ruled
        (typeIn options (.ofList ds))
      = (Merge.union key ((Registry.ofList ds).wellFormed key)).ruled
          (typeIn options (.ofList ds')) :=
    Declaration.ruled_congr fun m hm o ho name hname =>
      hnames name (Registry.mem_namesIn_of_union hm ho hname)
  rw [hruled]

theorem unknownTypes_perm_of_wellFormed :
    (Diagnostic.withKind .unknownType (ofRegistry options (.ofList ds)).diagnostics).Perm
      (Diagnostic.withKind .unknownType (ofRegistry options (.ofList ds')).diagnostics) := by
  rw [withKind_unknownType, withKind_unknownType,
    Lookup.ruleReports_of_perm (Merged.keys_perm_of_wellFormed h)]
  exact (Merged.declarations_perm_of_wellFormed h).flatMap_right _

/-- Where names stand for the same, or no reference was there before, the same overloads
collapse. -/
theorem collapsedSites_perm_of_wellFormed
    (hkeys : ∀ key, Registry.SameNames options (.ofList ds) (.ofList ds') key ∨
      ∀ d ∈ (Registry.ofList ds).wellFormed key, d.Unlinked) :
    ((Merged.ofRegistry options (.ofList ds)).collapsedSites options).Perm
      ((Merged.ofRegistry options (.ofList ds')).collapsedSites options) := by
  have hperm : (Merged.ofRegistry options (.ofList ds)).keys.Perm
      (Merged.ofRegistry options (.ofList ds')).keys := Merged.keys_perm_of_wellFormed h
  rw [Merged.collapsedSites, Merged.collapsedSites, Merged.lookup, Merged.lookup]
  refine (Merged.declarations_perm_of_wellFormed h).flatMap fun d hd => ?_
  rw [Merged.declarations_eq_map_keys, List.mem_map] at hd
  obtain ⟨key, -, rfl⟩ := hd
  -- either no name in the declaration is split, or there is no reference in it
  rcases hkeys key with hnames | hunlinked
  · rw [Declaration.collapsedSites_congr fun m hm o ho name hname =>
      hnames name (Registry.mem_namesIn_of_union hm ho hname)]
  · rw [Declaration.collapsedSites_of_unlinked (Merge.unlinked_union hunlinked)
      (Lookup.rule?_eq_none_iff_of_perm hperm options.acrossModules key.scope)]

theorem ambiguities_perm_of_wellFormed
    (hkeys : ∀ key, Registry.SameNames options (.ofList ds) (.ofList ds') key ∨
      ∀ d ∈ (Registry.ofList ds).wellFormed key, d.Unlinked) :
    (Diagnostic.withKind .overloadAmbiguity (ofRegistry options (.ofList ds)).diagnostics).Perm
      (Diagnostic.withKind .overloadAmbiguity
        (ofRegistry options (.ofList ds')).diagnostics) := by
  have hgone := collapsedSites_perm_of_wellFormed h hkeys
  rw [withKind_overloadAmbiguity, withKind_overloadAmbiguity]
  simp only [hgone.mem_iff]
  exact (Merged.ambiguities_perm_of_wellFormed h).filter _

end Table

end

/-- Leaving malformed declarations out beforehand changes in a table at most where names that are
found across modules lead to. -/
theorem Table.sameButAcross_filter_wellFormed (options : Options) (ds : List Declaration) :
    SameButAcross options (.ofList ds) (.ofList (ds.filter fun d => d.WellFormed)) := by
  have h := Registry.wellFormed_filter ds
  -- the same is well formed under each key, so that the same is merged
  refine ⟨fun key => ?_, fun key => ?_, typeIn_or_splitAcross h, fun key => get?_of_wellFormed h,
    unknownTypes_perm_of_wellFormed h, fun hkeys => ?_⟩
  · rw [get?_ofRegistry, get?_ofRegistry, h]
    split
    · rw [Option.isSome_some, Option.isSome_some]
    · rfl
  · refine ⟨if (Registry.ofList ds).wellFormed key ≠ [] then
      some (Merge.union key ((Registry.ofList ds).wellFormed key)) else none, ?_, ?_⟩
    · rw [get?_ofRegistry]
      split
      · rw [Option.map_some]
      · rw [Option.map_none]
    · rw [get?_ofRegistry, h]
      split
      · rw [Option.map_some]
      · rw [Option.map_none]
  · rw [filter_kind_ne_malformedSignature, filter_kind_ne_malformedSignature]
    exact (ambiguities_perm_of_wellFormed h hkeys).append (unknownTypes_perm_of_wellFormed h)

/-! ### A name that leads elsewhere -/

/-- The first declaration of `T` in `a` is malformed, and the second one comes behind that of `T` in
`b`.  In `G`, an overload that names `T` stands beside one that refers to `T` in `b`. -/
def Declaration.shadowed : List Declaration :=
  let a : Key := ⟨.ambient "a", "T"⟩
  let b : Key := ⟨.ambient "b", "T"⟩
  [.interface a ⟨"a.d.ts", 0⟩
      [.single "m" ⟨[⟨"x", .string, true, false⟩, .required "y" .string], .any⟩ ⟨"a.d.ts", 0⟩],
    .interface b ⟨"b.d.ts", 0⟩ [],
    .interface a ⟨"c.d.ts", 0⟩ [],
    .interface (.ofGlobal "G") ⟨"d.d.ts", 0⟩
      [.single "f" ⟨[.required "x" (.unresolved "T")], .any⟩ ⟨"d.d.ts", 0⟩,
        .single "f" ⟨[.required "x" (.declared b)], .any⟩ ⟨"d.d.ts", 1⟩]]

/-- The malformed declaration keeps the place of its key, so that the name leads to `a` with it and
to `b` without it, where both overloads are one. -/
theorem Table.ofRegistry_shadowed :
    let table := ofRegistry .standard (.ofList Declaration.shadowed)
    let table' := ofRegistry .standard (.ofList (Declaration.shadowed.filter fun d => d.WellFormed))
    table.get? (.ofGlobal "G") ≠ table'.get? (.ofGlobal "G") ∧
      ¬ (table.diagnostics.filter fun r => r.kind ≠ .malformedSignature).Perm
        (table'.diagnostics.filter fun r => r.kind ≠ .malformedSignature) := by
  decide +kernel

end Overlay
