/-
Tables in order.

Raw declarations can have members of the same name, alike overloads and flaws.  Merging puts all of
this in order, and looking names up keeps it so: what comes in the place of a name brings no flaw,
and overloads that have become alike collapse.

* `Declaration.Made`, `Registry.Filled` — how declarations and registries come about;
* `Lookup.flaw?_ruleType` — what a name stands for has no flaw, so it spoils no signature;
* `Merge.orderly_union` — what well-formed declarations say together is in order;
* `Declaration.Orderly.ruled` — it stays so when its names are looked up;
* `Table.orderly_of_filled` — the table of a registry that was filled in any way is in order.
-/
import Overlay.Proofs.Closed
import Overlay.Proofs.Reordering
import Overlay.Proofs.Ty.Shape

namespace Overlay

/-! ### How declarations come about -/

/-- A member is made with one overload. -/
def Member.Made (m : Member) : Prop :=
  ∃ name signature site, m = .single name signature site

/-- A declaration is made as a module without a body or as an interface, and members can be added
to either. -/
inductive Declaration.Made : Declaration → Prop
  | stub (name : String) (site : Site) : Made (.stub name site)
  | interface (key : Key) (site : Site) {members : List Member} (h : ∀ m ∈ members, m.Made) :
    Made (.interface key site members)
  | push {d : Declaration} {m : Member} (hd : Made d) (hm : m.Made) : Made (d.push m)

/-- A registry is filled step by step, with declarations and with fragments. -/
inductive Registry.Filled : Registry → Prop
  | empty : Filled .empty
  | register {registry : Registry} {d : Declaration} (h : Filled registry) (hd : d.Made) :
    Filled (registry.register d)
  | extend {registry : Registry} {ds : List Declaration} (h : Filled registry)
    (hds : ∀ d ∈ ds, d.Made) : Filled (registry.extend ds)
  | addFragment {registry : Registry} (fragment : Fragment) (h : Filled registry) :
    Filled (registry.addFragment fragment)

/-! ### What is in order -/

/-- A declaration leads if there is a first site of it, and a first signature of each member. -/
structure Declaration.Leads (d : Declaration) : Prop where
  site : ∃ site, d.site? = some site
  signature : ∀ m ∈ d.members, ∃ signature, m.leading? = some signature

/-- A declaration is in order if it stands at some site, no two of its members have the same name,
each member has overloads of which no two are alike, no signature has a flaw, and only a module
itself is without a body. -/
structure Declaration.Orderly (d : Declaration) : Prop where
  sites : d.sites ≠ []
  names : (d.members.map Member.name).Nodup
  overloads : ∀ m ∈ d.members, m.overloads ≠ []
  distinct : ∀ m ∈ d.members,
    m.overloads.Pairwise fun o o' => ¬ o.signature.alike o'.signature = true
  wellFormed : d.WellFormed
  own : d.isStub = true → d.key.isOwn = true

/-- In a table in order no two declarations have the same key and each is in order.  So each leads,
and all overloads of a name are found in one member. -/
structure Table.Orderly (table : Table) : Prop where
  keys : (table.declarations.map Declaration.key).Nodup
  declarations : ∀ d, table.Shows d → d.Orderly
  leads : ∀ d, table.Shows d → d.Leads
  member : ∀ d, table.Shows d → ∀ name,
    Merge.named name d.overloads = ((d.member? name).map Member.overloads).getD []

/-! ### Declarations that were made -/

theorem Member.Made.leading? {m : Member} (h : m.Made) :
    ∃ signature, m.leading? = some signature := by
  obtain ⟨name, signature, site, rfl⟩ := h
  exact ⟨signature, rfl⟩

namespace Declaration.Made

theorem leads {d : Declaration} (h : d.Made) : d.Leads := by
  induction h with
  | stub name site => exact ⟨⟨site, rfl⟩, fun m hm => absurd hm List.not_mem_nil⟩
  | interface key site h => exact ⟨⟨site, rfl⟩, fun m hm => (h m hm).leading?⟩
  | push hd hm ih =>
    refine ⟨ih.site, fun m' hm' => ?_⟩
    rcases List.mem_append.mp hm' with hm' | hm'
    · exact ih.signature m' hm'
    · rw [List.mem_singleton.mp hm']
      exact hm.leading?

/-- Only a module itself is made without a body. -/
theorem isOwn_of_stub {d : Declaration} (h : d.Made) (hstub : d.body = .stub) :
    d.key.isOwn = true := by
  cases h with
  | stub name site => exact beq_self_eq_true (some name)
  | interface key site h => exact absurd hstub nofun
  | push hd hm => exact absurd hstub nofun

end Declaration.Made

theorem Fragment.Groups.made_add {groups : Groups} (h : ∀ group ∈ groups, group.2.Made)
    (site : Site) (record : Record) : ∀ group ∈ groups.add site record, group.2.Made := by
  cases record with
  | stub name =>
    exact Assoc.forall_values_alter (P := Declaration.Made) _ h (.stub name site) fun d hd => hd
  | member interfaceName memberName written home? =>
    have hmember : (Member.single memberName written.lower site).Made := ⟨_, _, _, rfl⟩
    refine Assoc.forall_values_alter (P := Declaration.Made) _ h ?_ fun d hd => ?_
    · exact .push (.interface _ site fun m hm => absurd hm List.not_mem_nil) hmember
    · exact .push hd hmember

/-- A fragment makes its declarations in the same way. -/
theorem Fragment.made_declarations (fragment : Fragment) : ∀ d ∈ fragment.declarations, d.Made := by
  have hgroups : ∀ group ∈ fragment.groups, group.2.Made := by
    rw [groups]
    -- record by record: each group is one that was made
    induction fragment.records.zipIdx using List.reverseRecOn with
    | nil => exact fun group hgroup => absurd hgroup List.not_mem_nil
    | append_singleton records record ih =>
      rw [List.foldl_append]
      exact Groups.made_add ih _ _
  intro d hd
  obtain ⟨group, hgroup, rfl⟩ := List.mem_map.mp hd
  exact hgroups group hgroup

/-- However a registry was filled, it is that of a list of declarations that were made. -/
theorem Registry.exists_ofList_of_filled {registry : Registry} (h : registry.Filled) :
    ∃ ds, registry = ofList ds ∧ ∀ d ∈ ds, d.Made := by
  induction h with
  | empty => exact ⟨[], rfl, fun d hd => absurd hd List.not_mem_nil⟩
  | @register registry d _ hd ih =>
    -- each step appends what it registers to the list
    obtain ⟨ds, rfl, hds⟩ := ih
    refine ⟨ds ++ [d], extend_ofList ds [d], fun d' hd' => ?_⟩
    rcases List.mem_append.mp hd' with hd' | hd'
    · exact hds d' hd'
    · rw [List.mem_singleton.mp hd']
      exact hd
  | @extend registry es _ hes ih =>
    obtain ⟨ds, rfl, hds⟩ := ih
    refine ⟨ds ++ es, extend_ofList ds es, fun d hd => ?_⟩
    exact (List.mem_append.mp hd).elim (hds d) (hes d)
  | @addFragment registry fragment _ ih =>
    obtain ⟨ds, rfl, hds⟩ := ih
    refine ⟨ds ++ fragment.declarations, extend_ofList ds _, fun d hd => ?_⟩
    exact (List.mem_append.mp hd).elim (hds d) (fragment.made_declarations d)

/-! ### Declarations in order -/

/-- What a name stands for has no flaw. -/
theorem Lookup.flaw?_ruleType (keys : List Key) (acrossModules : Bool) (scope : Scope)
    (name : String) : (ruleType keys acrossModules scope name).flaw? = none := by
  rw [ruleType]
  split
  · rfl
  · rfl

/-- No two of the overloads that are kept are alike. -/
theorem Overload.pairwise_firsts (os : List Overload) :
    (firsts os).Pairwise fun o o' => ¬ o.signature.alike o'.signature = true := by
  induction os using List.reverseRecOn with
  | nil => exact List.Pairwise.nil
  | append_singleton os last ih =>
    rw [firsts_concat]
    by_cases hlast : last.isIn os
    · rw [if_pos hlast]
      exact ih
    · rw [if_neg hlast, List.pairwise_append]
      refine ⟨ih, List.pairwise_singleton .., fun o ho o' ho' halike => hlast ?_⟩
      rw [List.mem_singleton.mp ho'] at halike
      exact (isIn_iff last os).mpr ⟨o, mem_of_mem_firsts ho, halike⟩

/-- While overloads are taken in, no name is left without any. -/
theorem Merge.get?_members_ne_nil (key : Key) (name : String) (ps : List (String × Overload)) :
    (ps.foldl (State.add key) ⟨[], []⟩).members.get? name ≠ some [] := by
  rw [get?_members_foldl_add]
  split
  · exact nofun
  · rename_i hnamed
    exact fun hnil => hnamed ((Overload.firsts_eq_nil_iff _).mp (Option.some.inj hnil))

/-- What well-formed declarations of a key say together is in order. -/
theorem Merge.orderly_union {key : Key} {ds : List Declaration} (hne : ds ≠ [])
    (hmade : ∀ d ∈ ds, d.Made) (hkey : ∀ d ∈ ds, d.key = key) (hds : ∀ d ∈ ds, d.WellFormed) :
    (union key ds).Orderly where
  sites := by
    -- any of the declarations brings its first site
    obtain ⟨d, hd⟩ := List.exists_mem_of_ne_nil _ hne
    obtain ⟨site, hsite⟩ := (hmade d hd).leads.site
    exact List.ne_nil_of_mem (List.mem_filterMap.mpr ⟨d, hd, hsite⟩)
  names := by
    rw [names_union]
    exact nodup_eraseDups _
  overloads := by
    intro m hm
    rw [members_union, List.mem_map] at hm
    obtain ⟨name, hname, rfl⟩ := hm
    have hnamed := (mem_memberNames_iff name ds).mp hname
    exact fun hnil => hnamed ((Overload.firsts_eq_nil_iff _).mp hnil)
  distinct := by
    intro m hm
    rw [members_union, List.mem_map] at hm
    obtain ⟨name, -, rfl⟩ := hm
    exact Overload.pairwise_firsts _
  wellFormed := by
    intro m hm o ho
    obtain ⟨d, hd, m', hm', -, ho'⟩ := exists_mem_of_mem_union hm ho
    exact hds d hd m' hm' o ho'
  own := by
    intro hstub
    obtain ⟨d, hd⟩ := List.exists_mem_of_ne_nil _ hne
    -- where all of them are stubs, each stands for its own module
    have hbody := (isStub_union key ds).mp hstub d hd
    have hown := (hmade d hd).isOwn_of_stub hbody
    rwa [hkey d hd] at hown

/-- Where no two members have the same name, the first member of a name has all its overloads. -/
theorem Member.named_of_nodup {ms : List Member} (h : (ms.map Member.name).Nodup) (name : String) :
    Merge.named name (ms.flatMap fun m => m.overloads.map fun o => (m.name, o))
      = ((ms.find? fun m => m.name == name).map Member.overloads).getD [] := by
  induction ms with
  | nil => rfl
  | cons m ms ih =>
    obtain ⟨hm, hms⟩ := List.nodup_cons.mp h
    have hsplit : Merge.named name ((m :: ms).flatMap fun m => m.overloads.map fun o => (m.name, o))
        = (if m.name = name then m.overloads else [])
          ++ Merge.named name (ms.flatMap fun m => m.overloads.map fun o => (m.name, o)) := by
      rw [List.flatMap_cons, Merge.named, Merge.named, List.filter_append, List.map_append]
      congr 1
      by_cases hname : m.name = name <;> simp [hname, List.filter_map, Function.comp_def]
    rw [hsplit, ih hms]
    by_cases hname : m.name = name
    · -- behind it, no member has the name
      have hnone : ms.find? (fun m => m.name == name) = none := by
        rw [List.find?_eq_none]
        intro m' hm' hname'
        exact hm (List.mem_map.mpr ⟨m', hm', (eq_of_beq hname').trans hname.symm⟩)
      rw [if_pos hname, List.find?_cons_of_pos (by simp [hname]), hnone]
      exact List.append_nil _
    · rw [if_neg hname, List.find?_cons_of_neg (by simp [hname])]
      rfl

namespace Declaration.Orderly

/-- A declaration stays in order when its names are looked up. -/
theorem ruled {d : Declaration} (h : d.Orderly) {rule : Scope → String → Ty}
    (hrule : ∀ scope name, (rule scope name).flaw? = none) : (d.ruled rule).Orderly where
  sites := h.sites
  names := by
    rw [members_ruled, List.map_map]
    exact h.names
  overloads := by
    intro m hm
    rw [members_ruled, List.mem_map] at hm
    obtain ⟨m', hm', rfl⟩ := hm
    intro hnil
    have hmap := (Overload.firsts_eq_nil_iff _).mp hnil
    exact h.overloads m' hm' (List.map_eq_nil_iff.mp hmap)
  distinct := by
    intro m hm
    rw [members_ruled, List.mem_map] at hm
    obtain ⟨m', -, rfl⟩ := hm
    exact Overload.pairwise_firsts _
  wellFormed := by
    intro m hm o ho
    rw [members_ruled, List.mem_map] at hm
    obtain ⟨m', hm', rfl⟩ := hm
    obtain ⟨o', ho', rfl⟩ := List.mem_map.mp (Overload.mem_of_mem_firsts ho)
    rw [Signature.flaw?_replace fun name _ => hrule d.key.scope name]
    exact h.wellFormed m' hm' o' ho'
  own := by
    intro hstub
    refine h.own ?_
    -- looking names up leaves an interface an interface
    obtain ⟨key, body, sites⟩ := d
    cases body with
    | stub => rfl
    | interface ms => exact absurd hstub (by simp [isStub, Declaration.ruled])

theorem leads {d : Declaration} (h : d.Orderly) : d.Leads := by
  refine ⟨?_, fun m hm => ?_⟩
  · obtain ⟨site, rest, hsites⟩ := List.exists_cons_of_ne_nil h.sites
    exact ⟨site, by rw [Declaration.site?, hsites, List.head?_cons]⟩
  · obtain ⟨leading, rest, hoverloads⟩ := List.exists_cons_of_ne_nil (h.overloads m hm)
    refine ⟨leading.signature, ?_⟩
    rw [Member.leading?, Member.signatures, hoverloads, List.map_cons, List.head?_cons]

/-- All overloads of a name are found in the first member of the name. -/
theorem named_overloads {d : Declaration} (h : d.Orderly) (name : String) :
    Merge.named name d.overloads = ((d.member? name).map Member.overloads).getD [] :=
  Member.named_of_nodup h.names name

end Declaration.Orderly

/-! ### Tables in order -/

namespace Table

/-- A table is in order as soon as its declarations are, and their keys tell them apart. -/
theorem orderly_of_declarations {table : Table}
    (hkeys : (table.declarations.map Declaration.key).Nodup)
    (h : ∀ d, table.Shows d → d.Orderly) : table.Orderly where
  keys := hkeys
  declarations := h
  leads := fun d hd => (h d hd).leads
  member := fun d hd name => (h d hd).named_overloads name

theorem orderly_ofRegistry (options : Options) {ds : List Declaration} (h : ∀ d ∈ ds, d.Made) :
    (ofRegistry options (.ofList ds)).Orderly := by
  refine orderly_of_declarations ?_ fun d hd => ?_
  · rw [keys_ofRegistry]
    exact Merged.nodup_keys_ofRegistry options ds
  · have hmem := mem_of_shows hd
    rw [declarations_ofRegistry, List.mem_map] at hmem
    obtain ⟨key, hkey, rfl⟩ := hmem
    have hne : (Registry.ofList ds).wellFormed key ≠ [] :=
      of_decide_eq_true (List.mem_filter.mp hkey).2
    -- what is merged was registered, under this key, and is well formed
    have hsite : ∀ d ∈ (Registry.ofList ds).wellFormed key, d ∈ (Registry.ofList ds).sites key :=
      fun d hd => (List.mem_filter.mp hd).1
    have hunion : (Merge.union key ((Registry.ofList ds).wellFormed key)).Orderly := by
      refine Merge.orderly_union hne (fun d hd => h d ?_) (fun d hd => ?_) fun d hd => ?_
      · have hregistered := hsite d hd
        rw [Registry.sites_ofList] at hregistered
        exact (List.mem_filter.mp hregistered).1
      · exact Registry.key_of_mem_sites (hsite d hd)
      · exact of_decide_eq_true (List.mem_filter.mp hd).2
    exact hunion.ruled fun scope name => Lookup.flaw?_ruleType _ _ scope name

/-- However a registry was filled, its declarations lead, a name has an overload as soon as it is
taken in by a merge, and the table is in order. -/
theorem orderly_of_filled (options : Options) {registry : Registry} (h : registry.Filled) :
    (∀ key, ∀ d ∈ registry.sites key, d.Leads) ∧
      (∀ key name, ∀ ps : List (String × Overload),
        (ps.foldl (Merge.State.add key) ⟨[], []⟩).members.get? name ≠ some []) ∧
      (ofRegistry options registry).Orderly := by
  obtain ⟨ds, rfl, hds⟩ := Registry.exists_ofList_of_filled h
  refine ⟨fun key d hd => ?_, Merge.get?_members_ne_nil, orderly_ofRegistry options hds⟩
  rw [Registry.sites_ofList] at hd
  exact (hds d (List.mem_filter.mp hd).1).leads

end Table

/-! ### A registry that was filled in each way -/

/-- The module `m` is declared without a body and then given a member, once more as an interface
with two members of one name, and beside it a file declares the module `n`. -/
def Registry.grown : Registry :=
  let f (type : Ty) (site : Site) : Member := .single "f" ⟨[.required "x" type], .any⟩ site
  let given := (Declaration.stub "m" ⟨"a.d.ts", 0⟩).push (f (.unresolved "A") ⟨"a.d.ts", 1⟩)
  let again := Declaration.interface (.own "m") ⟨"b.d.ts", 0⟩
    [f .string ⟨"b.d.ts", 0⟩, f .any ⟨"b.d.ts", 1⟩]
  ((empty.register given).extend [again]).addFragment ⟨"c.d.ts", [.stub "n"]⟩

theorem Registry.filled_grown : grown.Filled := by
  have hgiven := Declaration.Made.stub "m" ⟨"a.d.ts", 0⟩
  refine .addFragment _ (.extend (.register .empty (hgiven.push ⟨_, _, _, rfl⟩)) fun d hd => ?_)
  rw [List.mem_singleton.mp hd]
  refine .interface _ _ fun m hm => ?_
  rcases List.mem_pair.mp hm with rfl | rfl
  · exact ⟨_, _, _, rfl⟩
  · exact ⟨_, _, _, rfl⟩

/-- The unknown name is taken for `any`, so that the last overload collapses into the first. -/
theorem Table.orderly_grown :
    let table := ofRegistry .standard .grown
    Registry.grown.Filled ∧ table.Orderly ∧
      table.declarations.map (fun d => (d.key, d.members.map fun m => (m.name, m.overloads.length)))
        = [(.own "m", [("f", 2)]), (.own "n", [])] :=
  ⟨Registry.filled_grown, (orderly_of_filled .standard Registry.filled_grown).2.2,
    by decide +kernel⟩

end Overlay
