/-
What a fragment declares.

A fragment groups its records: those of modules without a body and those of interfaces stay apart,
and each group becomes one declaration.  Nothing is said that no record says, and nothing is lost:

* `Declaration.Collects` — a declaration that was made of the records of a group;
* `Fragment.keys_declarations`, `Fragment.exists_declaration_iff` — the keys and kinds of what a
  fragment declares are those of its records;
* `Fragment.overloads_declarations` — under a key, a fragment declares what its records say;
* `Fragment.wellFormed_declarations` — from records without flaws come well-formed declarations.
-/
import Overlay.Proofs.Registry
import Overlay.Proofs.Reports
import Overlay.Proofs.Unsited

namespace Overlay

/-! ### Records and their groups -/

/-- Whether a record declares a module without a body. -/
def Record.isStub : Record → Bool
  | .stub _ => true
  | .member .. => false

/-- The group that a record goes to. -/
def Record.group (record : Record) : Key × Bool :=
  (record.key, record.isStub)

/-- What a record says, wherever it stands: nothing, or an overload of a member. -/
def Record.overloads : Record → List (String × Overload)
  | .stub _ => []
  | .member _ memberName written _ => [(memberName, ⟨written.lower, .nowhere⟩)]

/-- No signature that a record says has a flaw. -/
def Record.WellFormed (record : Record) : Prop :=
  ∀ p ∈ record.overloads, p.2.signature.flaw? = none

instance : DecidablePred Record.WellFormed := fun record =>
  inferInstanceAs (Decidable (∀ p ∈ record.overloads, p.2.signature.flaw? = none))

/-- The declaration of a group after a record that stands at a site. -/
def Record.join (site : Site) (record : Record) (d? : Option Declaration) : Declaration :=
  match record with
  | .stub name => d?.getD (.stub name site)
  | .member _ memberName written _ =>
    (d?.getD (.interface record.key site [])).push (.single memberName written.lower site)

/-- A declaration collects the records of a group if it has the key and the kind of the group, and
says what the records say. -/
structure Declaration.Collects (d : Declaration) (group : Key × Bool) (records : List Record) :
    Prop where
  group : (d.key, d.isStub) = group
  overloads : d.overloads.map Overload.unsitedPair = records.flatMap Record.overloads

theorem Declaration.overloads_push (d : Declaration) (m : Member) :
    (d.push m).overloads = d.overloads ++ m.overloads.map fun o => (m.name, o) := by
  show (d.members ++ [m]).flatMap _ = _
  rw [List.flatMap_append, List.flatMap_singleton]
  rfl

/-- The first record of a group. -/
theorem Record.collects_join_none (site : Site) (record : Record) :
    (record.join site none).Collects record.group [record] := by
  cases record with
  | stub name => exact ⟨rfl, rfl⟩
  | member interfaceName memberName written home? => exact ⟨rfl, rfl⟩

/-- Any further record. -/
theorem Record.collects_join_some {d : Declaration} {records : List Record} (site : Site)
    (record : Record) (h : d.Collects record.group records) :
    (record.join site (some d)).Collects record.group (records ++ [record]) := by
  cases record with
  | stub name =>
    refine ⟨h.group, ?_⟩
    rw [List.flatMap_append, ← h.overloads]
    exact (List.append_nil _).symm
  | member interfaceName memberName written home? =>
    obtain ⟨hgroup, hoverloads⟩ := h
    refine ⟨?_, ?_⟩
    · exact Prod.ext (Prod.mk.inj hgroup).1 rfl
    · rw [List.flatMap_append, ← hoverloads, join, Option.getD_some, Declaration.overloads_push,
        List.map_append]
      rfl

/-- So do any further ones. -/
theorem Record.collects_foldl {group : Key × Bool} (file : String) {ps : List (Record × Nat)}
    (hps : ∀ p ∈ ps, p.1.group = group) {d : Declaration} {records : List Record}
    (h : d.Collects group records) :
    ∃ d', ps.foldl (fun d? p => some (p.1.join ⟨file, p.2.toUInt32⟩ d?)) (some d) = some d' ∧
      d'.Collects group (records ++ ps.map Prod.fst) := by
  induction ps generalizing d records with
  | nil => exact ⟨d, rfl, by rwa [List.map_nil, List.append_nil]⟩
  | cons p ps ih =>
    obtain rfl := hps p (List.mem_cons_self ..)
    have hstep := p.1.collects_join_some ⟨file, p.2.toUInt32⟩ h
    obtain ⟨d', hd', hcollects⟩ := ih (fun q hq => hps q (List.mem_cons_of_mem _ hq)) hstep
    refine ⟨d', hd', ?_⟩
    rwa [List.append_assoc, List.singleton_append, ← List.map_cons] at hcollects

/-! ### Fragments -/

namespace Fragment

variable (fragment : Fragment)

theorem Groups.add_eq (groups : Groups) (site : Site) (record : Record) :
    groups.add site record = Assoc.alter record.group (record.join site) groups := by
  cases record <;> rfl

theorem groups_eq : fragment.groups = fragment.records.zipIdx.foldl (fun groups p =>
    Assoc.alter p.1.group (p.1.join ⟨fragment.file, p.2.toUInt32⟩) groups) [] := by
  rw [groups]
  congr 1
  funext groups p
  exact Groups.add_eq groups _ _

/-- The groups are those that records go to, each where it comes first. -/
theorem keys_groups : fragment.groups.keys
    = @List.eraseDups _ instBEqOfDecidableEq (fragment.records.map Record.group) := by
  rw [groups_eq, Assoc.keys_foldl_alter (fun p : Record × Nat => p.1.group)
    (fun p => p.1.join ⟨fragment.file, p.2.toUInt32⟩)]
  rw [← Function.comp_def Record.group, ← List.map_map, List.zipIdx_map_fst]

theorem nodup_keys_groups : fragment.groups.keys.Nodup := by
  rw [keys_groups]
  exact nodup_eraseDups _

theorem mem_keys_groups (group : Key × Bool) :
    group ∈ fragment.groups.keys ↔ ∃ record ∈ fragment.records, record.group = group := by
  rw [keys_groups, @List.mem_eraseDups _ instBEqOfDecidableEq, List.mem_map]

/-- Each group is made of its records. -/
theorem collects_of_mem_groups {p : (Key × Bool) × Declaration} (h : p ∈ fragment.groups) :
    p.2.Collects p.1 (fragment.records.filter fun record => record.group = p.1) := by
  have hget : fragment.groups.get? p.1 = some p.2 := Assoc.get?_of_mem fragment.nodup_keys_groups h
  -- the numbers of the records play no part in which group they go to
  have hrecords : (fragment.records.zipIdx.filter fun q => q.1.group = p.1).map Prod.fst
      = fragment.records.filter fun record => record.group = p.1 := by
    rw [← List.zipIdx_map_fst 0 fragment.records, List.filter_map, List.zipIdx_map_fst]
    rfl
  rw [groups_eq, Assoc.get?_foldl_alter (fun q : Record × Nat => q.1.group)
    (fun q => q.1.join ⟨fragment.file, q.2.toUInt32⟩)] at hget
  rw [← hrecords]
  have hgroup : ∀ q ∈ fragment.records.zipIdx.filter (fun q => q.1.group = p.1),
      q.1.group = p.1 := fun q hq => of_decide_eq_true (List.mem_filter.mp hq).2
  generalize fragment.records.zipIdx.filter (fun q => q.1.group = p.1) = qs at hget hgroup
  cases qs with
  | nil => exact absurd hget nofun
  | cons q qs =>
    -- the first record makes the declaration, and the others join it
    have hfirst := q.1.collects_join_none ⟨fragment.file, q.2.toUInt32⟩
    rw [hgroup q (List.mem_cons_self ..)] at hfirst
    obtain ⟨d, hd, hcollects⟩ := Record.collects_foldl fragment.file
      (fun r hr => hgroup r (List.mem_cons_of_mem _ hr)) hfirst
    have hsame : d = p.2 := Option.some.inj (hd.symm.trans hget)
    rwa [hsame] at hcollects

/-- The declarations of a fragment have the keys and kinds of its groups. -/
theorem map_group_declarations :
    fragment.declarations.map (fun d => (d.key, d.isStub)) = fragment.groups.keys := by
  rw [declarations, Assoc.values, List.map_map]
  exact List.map_congr_left fun p hp => (fragment.collects_of_mem_groups hp).group

/-- The keys come in the order of the records. -/
theorem keys_declarations : (fragment.declarations.map Declaration.key).eraseDups
    = (fragment.records.map Record.key).eraseDups := by
  have hkeys : fragment.declarations.map Declaration.key = fragment.groups.keys.map Prod.fst := by
    rw [← map_group_declarations, List.map_map]
    rfl
  rw [hkeys, keys_groups, eraseDups_map_eraseDups, List.map_map]
  rfl

/-- A declaration of a kind comes from records of that kind. -/
theorem exists_declaration_iff (key : Key) (isStub : Bool) :
    (∃ d ∈ fragment.declarations, d.key = key ∧ d.isStub = isStub)
      ↔ ∃ record ∈ fragment.records, record.key = key ∧ record.isStub = isStub := by
  have hgroup := fragment.mem_keys_groups (key, isStub)
  rw [← map_group_declarations, List.mem_map] at hgroup
  simp only [Prod.mk.injEq, Record.group] at hgroup
  exact hgroup

/-- What the records of a group say. -/
def said (group : Key × Bool) : List (String × Overload) :=
  (fragment.records.filter fun record => record.group = group).flatMap Record.overloads

theorem said_stub (key : Key) : fragment.said (key, true) = [] := by
  refine List.flatMap_eq_nil_iff.mpr fun record hrecord => ?_
  have hgroup : record.group = (key, true) := of_decide_eq_true (List.mem_filter.mp hrecord).2
  cases record with
  | stub name => rfl
  | member interfaceName memberName written home? => exact absurd (Prod.mk.inj hgroup).2 nofun

theorem said_interface (key : Key) : fragment.said (key, false)
    = (fragment.records.filter fun record => record.key = key).flatMap Record.overloads := by
  have hfilter : (fragment.records.filter fun record => record.group = (key, false))
      = (fragment.records.filter fun record => record.key = key).filter fun record =>
          !record.isStub := by
    rw [List.filter_filter]
    refine List.filter_congr fun record _ => ?_
    rw [Bool.eq_iff_iff]
    simp [Record.group, and_comm]
  rw [said, hfilter]
  refine flatMap_filter_of_eq_nil fun record _ hstub => ?_
  cases record with
  | stub name => rfl
  | member interfaceName memberName written home? => exact absurd hstub nofun

/-- A key has at most two groups, and only that of the interface says anything. -/
theorem flatMap_said (key : Key) :
    ((fragment.groups.keys).filter fun group => group.1 = key).flatMap fragment.said
      = fragment.said (key, false) := by
  -- the other group that a key can have is that of a module without a body
  have hone : ∀ group ∈ (fragment.groups.keys).filter (fun group => group.1 = key),
      decide (group = (key, false)) = false → fragment.said group = [] := by
    rintro ⟨key', isStub⟩ hgroup hne
    have hkey : key' = key := of_decide_eq_true (List.mem_filter.mp hgroup).2
    cases isStub with
    | true => exact fragment.said_stub key'
    | false =>
      rw [hkey] at hne
      exact absurd rfl (of_decide_eq_false hne)
  have hfilter : ((fragment.groups.keys).filter fun group => group.1 = key).filter
        (fun group => group = (key, false))
      = List.replicate ((fragment.groups.keys).count (key, false)) (key, false) := by
    rw [List.filter_filter, ← List.filter_eq]
    refine List.filter_congr fun group _ => ?_
    by_cases h : group = (key, false) <;> simp [h]
  rw [← flatMap_filter_of_eq_nil hone, hfilter,
    fragment.nodup_keys_groups.count]
  -- where no record goes to the group of the interface, none says anything
  by_cases hmem : (key, false) ∈ fragment.groups.keys
  · rw [if_pos hmem, List.replicate_one, List.flatMap_singleton]
  · rw [if_neg hmem, said, List.filter_eq_nil_iff.mpr fun record hrecord hgroup => hmem ?_]
    · rfl
    · exact (fragment.mem_keys_groups _).mpr ⟨record, hrecord, of_decide_eq_true hgroup⟩

/-- Under a key, a fragment declares what its records say. -/
theorem overloads_declarations (key : Key) :
    ((fragment.declarations.filter fun d => d.key = key).flatMap Declaration.overloads).map
        Overload.unsitedPair
      = (fragment.records.filter fun record => record.key = key).flatMap Record.overloads := by
  -- a declaration has the key of its group
  have hkey : fragment.groups.filter ((fun d : Declaration => decide (d.key = key)) ∘ Prod.snd)
      = fragment.groups.filter ((fun group => decide (group.1 = key)) ∘ Prod.fst) := by
    refine List.filter_congr fun p hp => ?_
    have hgroup := (fragment.collects_of_mem_groups hp).group
    simp only [Function.comp_apply, ← hgroup]
  calc ((fragment.declarations.filter fun d => d.key = key).flatMap Declaration.overloads).map
        Overload.unsitedPair
      = (fragment.groups.filter ((fun group => decide (group.1 = key)) ∘ Prod.fst)).flatMap
          fun p => p.2.overloads.map Overload.unsitedPair := by
        rw [declarations, Assoc.values, List.filter_map, List.flatMap_map, List.map_flatMap, hkey]
    _ = (fragment.groups.filter ((fun group => decide (group.1 = key)) ∘ Prod.fst)).flatMap
          fun p => fragment.said p.1 :=
        List.flatMap_congr fun p hp =>
          (fragment.collects_of_mem_groups (List.mem_filter.mp hp).1).overloads
    _ = ((fragment.groups.keys).filter fun group => group.1 = key).flatMap fragment.said := by
        rw [Assoc.keys, List.filter_map, List.flatMap_map]
    _ = _ := by rw [flatMap_said, said_interface]

/-- From records without flaws come well-formed declarations. -/
theorem wellFormed_declarations (h : ∀ record ∈ fragment.records, record.WellFormed) :
    ∀ d ∈ fragment.declarations, d.WellFormed := by
  intro d hd m hm o ho
  obtain ⟨p, hp, rfl⟩ := List.mem_map.mp hd
  have hsaid : (m.name, o.unsited) ∈ fragment.said p.1 := by
    rw [said, ← (fragment.collects_of_mem_groups hp).overloads]
    refine List.mem_map.mpr ⟨(m.name, o), ?_, rfl⟩
    exact List.mem_flatMap.mpr ⟨m, hm, List.mem_map.mpr ⟨o, ho, rfl⟩⟩
  obtain ⟨record, hrecord, hoverload⟩ := List.mem_flatMap.mp hsaid
  exact h record (List.mem_filter.mp hrecord).1 _ hoverload

end Fragment

end Overlay
