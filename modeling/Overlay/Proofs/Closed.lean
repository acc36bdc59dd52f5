/-
Tables without loose ends.

`Ty.Occurs` says that a type is found at some depth of another, whatever way leads to it.  A table is
closed if, in every declaration that it shows, no name is left to be looked up, and every reference
to a declaration leads to one of the table:

* `Ty.occurs_replace` — what is found in a type after names are replaced;
* `WrittenType.unlinked_lower` — no reference to a declaration is ever written;
* `Fragment.unlinked_declarations` — so raw declarations have none, however records are grouped;
* `Table.closed_ofRegistry` — the table of any fragments is closed.
-/
import Overlay.Proofs.Table

namespace Overlay

/-! ### What occurs in a type -/

/-- A type occurs in itself, and in every function type with a parameter or a result that it occurs
in. -/
inductive Ty.Occurs (t : Ty) : Ty → Prop
  | here : Occurs t t
  | param {s : Signature} {p : Param Ty} (hp : p ∈ s.params) (h : Occurs t p.type) :
    Occurs t (.function s)
  | result {s : Signature} (h : Occurs t s.result) : Occurs t (.function s)

/-- A type occurs in a signature of a declaration. -/
def Declaration.Mentions (d : Declaration) (t : Ty) : Prop :=
  ∃ m ∈ d.members, ∃ o ∈ m.overloads, t.Occurs (.function o.signature)

/-- A declaration is shown by a table, in its list or in the view of a module. -/
def Table.Shows (table : Table) (d : Declaration) : Prop :=
  d ∈ table.declarations ∨ ∃ view ∈ table.modules, d ∈ view.declarations

/-- In what a table shows, no name is left and every reference leads to its declaration. -/
structure Table.Closed (table : Table) : Prop where
  resolved : ∀ d, table.Shows d → ∀ name, ¬ d.Mentions (.unresolved name)
  linked : ∀ d, table.Shows d → ∀ key, d.Mentions (.declared key) →
    ∃ target, table.get? key = some target ∧ target.key = key ∧
      table.referent? (.declared key) = some target

namespace Ty

theorem occurs_function_iff (t : Ty) (s : Signature) : t.Occurs (.function s)
    ↔ t = .function s ∨ (∃ p ∈ s.params, t.Occurs p.type) ∨ t.Occurs s.result := by
  constructor
  · intro h
    cases h with
    | here => exact .inl rfl
    | param hp h => exact .inr (.inl ⟨_, hp, h⟩)
    | result h => exact .inr (.inr h)
  · rintro (rfl | ⟨p, hp, h⟩ | h)
    · exact .here
    · exact .param hp h
    · exact .result h

/-- In a type without parts nothing else occurs. -/
theorem Occurs.eq_of_forall_ne_function {t u : Ty} (h : t.Occurs u) (hu : ∀ s, u ≠ .function s) :
    t = u := by
  cases h with
  | here => rfl
  | param => exact absurd rfl (hu _)
  | result => exact absurd rfl (hu _)

/-- A type that is no function occurs after names are replaced only if it is no name and occurred
before, or if it occurs in what has come in the place of a name. -/
theorem occurs_replace {f : String → Ty} {t u : Ty} (ht : ∀ s, t ≠ .function s)
    (h : t.Occurs (u.replace f)) :
    (t.Occurs u ∧ ∀ name, t ≠ .unresolved name) ∨ ∃ name, t.Occurs (f name) := by
  induction u using Ty.induction with
  | function s params result =>
    rw [replace_function, occurs_function_iff] at h
    rcases h with h | ⟨p, hp, h⟩ | h
    · exact absurd h (ht _)
    · -- a parameter is one of before, with its type replaced
      obtain ⟨q, hq, rfl⟩ := List.mem_map.mp hp
      rcases params q hq h with ⟨h, hname⟩ | h
      · exact .inl ⟨.param hq h, hname⟩
      · exact .inr h
    · rcases result h with ⟨h, hname⟩ | h
      · exact .inl ⟨.result h, hname⟩
      · exact .inr h
  | unresolved name => exact .inr ⟨name, by rwa [replace_unresolved] at h⟩
  -- the other types have no parts: what occurs in them is the type itself
  | any =>
    obtain rfl := h.eq_of_forall_ne_function fun s => by rw [replace_any]; exact nofun
    exact .inl ⟨.here, nofun⟩
  | string =>
    obtain rfl := h.eq_of_forall_ne_function fun s => by rw [replace_string]; exact nofun
    exact .inl ⟨.here, nofun⟩
  | void =>
    obtain rfl := h.eq_of_forall_ne_function fun s => by rw [replace_void]; exact nofun
    exact .inl ⟨.here, nofun⟩
  | declared key =>
    obtain rfl := h.eq_of_forall_ne_function fun s => by rw [replace_declared]; exact nofun
    exact .inl ⟨.here, nofun⟩

end Ty

/-- What is put in the place of a name is `any`, or a reference to one of the keys. -/
theorem Lookup.occurs_ruleType {keys : List Key} {acrossModules : Bool} {scope : Scope}
    {name : String} {t : Ty} (h : t.Occurs (ruleType keys acrossModules scope name)) :
    t = .any ∨ ∃ key ∈ keys, t = .declared key := by
  rw [ruleType] at h
  split at h
  next key hkey => exact .inr ⟨key, mem_of_rule? hkey, h.eq_of_forall_ne_function (by simp)⟩
  next => exact .inl (h.eq_of_forall_ne_function (by simp))

/-! ### Written types -/

/-- No reference to a declaration occurs in a type. -/
def Ty.Unlinked (t : Ty) : Prop :=
  ∀ key, ¬ (Ty.declared key).Occurs t

theorem Ty.unlinked_function_iff (s : Signature) : (Ty.function s).Unlinked
    ↔ (∀ p ∈ s.params, p.type.Unlinked) ∧ s.result.Unlinked := by
  constructor
  · intro h
    exact ⟨fun p hp key hkey => h key (.param hp hkey), fun key hkey => h key (.result hkey)⟩
  · rintro ⟨hparams, hresult⟩ key hkey
    rcases (occurs_function_iff _ _).mp hkey with h | ⟨p, hp, h⟩ | h
    · exact absurd h nofun
    · exact hparams p hp key h
    · exact hresult key h

theorem Ty.unlinked_any : Ty.any.Unlinked := fun _ h =>
  absurd (h.eq_of_forall_ne_function nofun) nofun

theorem Ty.unlinked_ofName (name : String) : (Ty.ofName name).Unlinked := by
  have hleaf : ∀ t : Ty, (∀ s, t ≠ .function s) → (∀ key, t ≠ .declared key) → t.Unlinked :=
    fun t hs hkey key h => hkey key (h.eq_of_forall_ne_function hs).symm
  rw [ofName]
  split
  · exact unlinked_any
  split
  · exact hleaf _ nofun nofun
  split
  · exact hleaf _ nofun nofun
  split
  · rw [unlinked_function_iff]
    refine ⟨fun p hp => ?_, unlinked_any⟩
    rw [List.mem_singleton.mp hp]
    exact unlinked_any
  · exact hleaf _ nofun nofun

mutual

/-- No reference to a declaration is ever written. -/
theorem WrittenType.unlinked_lower : ∀ a : WrittenType, a.lower.Unlinked
  | .named text => Ty.unlinked_ofName text
  | .function ⟨ps, none⟩ =>
    (Ty.unlinked_function_iff _).mpr ⟨WrittenType.unlinked_lowerParams ps, Ty.unlinked_any⟩
  | .function ⟨ps, some r⟩ =>
    (Ty.unlinked_function_iff _).mpr
      ⟨WrittenType.unlinked_lowerParams ps, WrittenType.unlinked_lower r⟩
termination_by structural a => a

/-- The same for the types of parameters. -/
theorem WrittenType.unlinked_lowerParams : ∀ ps : List (Param (Option WrittenType)),
    ∀ p ∈ WrittenType.lowerParams ps, p.type.Unlinked
  | [], _, h => nomatch h
  | ⟨_, none, _, _⟩ :: _, _, .head _ => Ty.unlinked_any
  | ⟨_, none, _, _⟩ :: ps, p, .tail _ h => WrittenType.unlinked_lowerParams ps p h
  | ⟨_, some (.named text), _, true⟩ :: _, _, .head _ => Ty.unlinked_ofName (elementName text)
  | ⟨_, some (.named _), _, true⟩ :: ps, p, .tail _ h => WrittenType.unlinked_lowerParams ps p h
  | ⟨_, some (.named text), _, false⟩ :: _, _, .head _ => Ty.unlinked_ofName text
  | ⟨_, some (.named _), _, false⟩ :: ps, p, .tail _ h => WrittenType.unlinked_lowerParams ps p h
  | ⟨_, some (.function c), _, _⟩ :: _, _, .head _ => WrittenType.unlinked_lower (.function c)
  | ⟨_, some (.function _), _, _⟩ :: ps, p, .tail _ h => WrittenType.unlinked_lowerParams ps p h
termination_by structural ps => ps

end

theorem WrittenSignature.unlinked_lower (w : WrittenSignature) :
    (Ty.function (WrittenSignature.lower w)).Unlinked := by
  obtain ⟨ps, r⟩ := w
  refine (Ty.unlinked_function_iff _).mpr ⟨WrittenType.unlinked_lowerParams ps, ?_⟩
  cases r with
  | none => exact Ty.unlinked_any
  | some a => exact WrittenType.unlinked_lower a

/-! ### Raw declarations -/

/-- No reference to a declaration occurs in a declaration. -/
def Declaration.Unlinked (d : Declaration) : Prop :=
  ∀ key, ¬ d.Mentions (.declared key)

theorem Declaration.unlinked_of_members_eq_nil {d : Declaration} (h : d.members = []) :
    d.Unlinked := by
  rintro key ⟨m, hm, -⟩
  rw [h] at hm
  exact absurd hm List.not_mem_nil

/-- What is mentioned after a member is added was mentioned before, or is by the member. -/
theorem Declaration.unlinked_push {d : Declaration} {m : Member} (hd : d.Unlinked)
    (hm : ∀ o ∈ m.overloads, (Ty.function o.signature).Unlinked) : (d.push m).Unlinked := by
  rintro key ⟨m', hm', o, ho, hkey⟩
  rcases List.mem_append.mp hm' with hm' | hm'
  · exact hd key ⟨m', hm', o, ho, hkey⟩
  · obtain rfl := List.mem_singleton.mp hm'
    exact hm o ho key hkey

namespace Fragment

/-- A record brings no reference to a declaration into the groups. -/
theorem Groups.unlinked_add {groups : Groups} (h : ∀ group ∈ groups, group.2.Unlinked)
    (site : Site) (record : Record) : ∀ group ∈ groups.add site record, group.2.Unlinked := by
  cases record with
  | stub name =>
    refine Assoc.forall_values_alter (P := Declaration.Unlinked) _ h ?_ fun d hd => hd
    exact Declaration.unlinked_of_members_eq_nil rfl
  | member interfaceName memberName written home? =>
    have hmember : ∀ o ∈ (Member.single memberName written.lower site).overloads,
        (Ty.function o.signature).Unlinked := by
      intro o ho
      rw [List.mem_singleton.mp ho]
      exact written.unlinked_lower
    refine Assoc.forall_values_alter (P := Declaration.Unlinked) _ h ?_ fun d hd => ?_
    · exact Declaration.unlinked_push (Declaration.unlinked_of_members_eq_nil rfl) hmember
    · exact Declaration.unlinked_push hd hmember

/-- In the raw declarations of a fragment no reference to a declaration occurs. -/
theorem unlinked_declarations (fragment : Fragment) :
    ∀ d ∈ fragment.declarations, d.Unlinked := by
  have hgroups : ∀ group ∈ fragment.groups, group.2.Unlinked := by
    rw [groups]
    -- record by record: the groups stay without references
    induction fragment.records.zipIdx using List.reverseRecOn with
    | nil => exact fun group hgroup => absurd hgroup List.not_mem_nil
    | append_singleton records record ih =>
      rw [List.foldl_append]
      exact Groups.unlinked_add ih _ _
  intro d hd
  obtain ⟨group, hgroup, rfl⟩ := List.mem_map.mp hd
  exact hgroups group hgroup

theorem unlinked_flatMap_declarations (fragments : List Fragment) :
    ∀ d ∈ fragments.flatMap declarations, d.Unlinked := by
  intro d hd
  obtain ⟨fragment, -, hd⟩ := List.mem_flatMap.mp hd
  exact fragment.unlinked_declarations d hd

end Fragment

/-! ### Merged and resolved declarations -/

/-- What is mentioned by declarations together is mentioned by one of them. -/
theorem Merge.mentions_of_union {key : Key} {ds : List Declaration} {t : Ty}
    (h : (union key ds).Mentions t) : ∃ d ∈ ds, d.Mentions t := by
  obtain ⟨m, hm, o, ho, ht⟩ := h
  obtain ⟨d, hd, m', hm', -, ho'⟩ := exists_mem_of_mem_union hm ho
  exact ⟨d, hd, m', hm', o, ho', ht⟩

theorem Merge.unlinked_union {key : Key} {ds : List Declaration} (h : ∀ d ∈ ds, d.Unlinked) :
    (union key ds).Unlinked := by
  intro target htarget
  obtain ⟨d, hd, hmentions⟩ := mentions_of_union htarget
  exact h d hd target hmentions

/-- What is mentioned after names are looked up was mentioned before, or has come in the place of a
name. -/
theorem Declaration.mentions_of_ruled {rule : Scope → String → Ty} {d : Declaration} {t : Ty}
    (ht : ∀ s, t ≠ .function s) (h : (d.ruled rule).Mentions t) :
    (d.Mentions t ∧ ∀ name, t ≠ .unresolved name) ∨ ∃ name, t.Occurs (rule d.key.scope name) := by
  obtain ⟨key, body, sites⟩ := d
  obtain ⟨m, hm, o, ho, ht'⟩ := h
  cases body with
  | stub => exact absurd hm List.not_mem_nil
  | interface ms =>
    obtain ⟨m', hm', rfl⟩ := List.mem_map.mp hm
    obtain ⟨o', ho', rfl⟩ := List.mem_map.mp (Overload.mem_of_mem_firsts ho)
    rw [← Ty.replace_function] at ht'
    rcases Ty.occurs_replace ht ht' with ⟨hoccurs, hname⟩ | hrule
    · exact .inl ⟨⟨m', hm', o', ho', hoccurs⟩, hname⟩
    · exact .inr hrule

namespace Table

/-- A table shows nothing beside its declarations: the views of modules are made of them. -/
theorem mem_of_shows {options : Options} {ds : List Declaration} {d : Declaration}
    (h : (ofRegistry options (.ofList ds)).Shows d) :
    d ∈ (ofRegistry options (.ofList ds)).declarations := by
  rcases h with h | ⟨view, hview, hd⟩
  · exact h
  · exact mem_of_mem_modulesOf hview hd

/-- What is mentioned in the table of raw declarations is no name, and if it is a reference, it is
one to a key of the table. -/
theorem mentions_of_shows {options : Options} {ds : List Declaration}
    (hds : ∀ d ∈ ds, d.Unlinked) {d : Declaration}
    (hd : (ofRegistry options (.ofList ds)).Shows d) {t : Ty} (ht : ∀ s, t ≠ .function s)
    (h : d.Mentions t) : (∀ name, t ≠ .unresolved name) ∧
      ∀ key, t = .declared key → key ∈ (Merged.ofRegistry options (.ofList ds)).keys := by
  have hmem := mem_of_shows hd
  rw [declarations_ofRegistry, List.mem_map] at hmem
  obtain ⟨own, -, rfl⟩ := hmem
  rcases Declaration.mentions_of_ruled ht h with ⟨hbefore, hname⟩ | ⟨name, hrule⟩
  · -- a reference that was there before would have to come from a raw declaration
    refine ⟨hname, fun key hkey => ?_⟩
    obtain ⟨raw, hraw, hmentions⟩ := Merge.mentions_of_union hbefore
    exact absurd (hkey ▸ hmentions) (hds raw (Registry.mem_of_mem_wellFormed hraw) key)
  · rcases Lookup.occurs_ruleType hrule with rfl | ⟨key, hkey, rfl⟩
    · exact ⟨nofun, nofun⟩
    · exact ⟨nofun, fun key' h => Ty.declared.inj h ▸ hkey⟩

/-- The table of any fragments, registered in any order, is closed. -/
theorem closed_ofRegistry (options : Options) (fragments : List Fragment) :
    (ofRegistry options (fragments.foldl Registry.addFragment .empty)).Closed := by
  have hds := Fragment.unlinked_flatMap_declarations fragments
  rw [Registry.foldl_addFragment]
  refine ⟨fun d hd name h => ?_, fun d hd key h => ?_⟩
  · exact (mentions_of_shows (t := .unresolved name) hds hd nofun h).1 name rfl
  · have hkey := (mentions_of_shows (t := .declared key) hds hd nofun h).2 key rfl
    obtain ⟨target, htarget, htargetKey⟩ := exists_get?_of_mem_keys options _ hkey
    exact ⟨target, htarget, htargetKey, htarget⟩

end Table

end Overlay
