/-
Records and their groups, one by one.

A fragment goes through its records once, and each record alters the declaration of its own group.
What comes of that can be said of each group by itself: its first record opens the declaration, and
every record of a member adds that member at the end, with one overload at the site of the record.

* `Fragment.foldl_join` — the declaration of a group after all its records;
* `Fragment.declarations_eq` — what a fragment declares, group by group;
* `Fragment.pairwise_first` — the groups come in the order of their first records;
* `Fragment.grouped_declarations` — no record is lost, and none is taken twice.
-/
import Overlay.Proofs.Fragment
import Overlay.Proofs.Sites

namespace Overlay

/-- The member that a record gives to its interface, when it stands at a site. -/
def Record.member? (site : Site) : Record → Option Member
  | .stub _ => none
  | .member _ memberName written _ => some (.single memberName written.lower site)

/-- The key of a declaration, and whether it is a stub. -/
def Declaration.group (d : Declaration) : Key × Bool :=
  (d.key, d.isStub)

namespace Fragment

variable (fragment : Fragment)

/-- The site of the record of a number. -/
def siteAt (index : Nat) : Site :=
  ⟨fragment.file, index.toUInt32⟩

/-- The number of the first record of a group. -/
def first (group : Key × Bool) : Nat :=
  fragment.records.findIdx fun record => record.group = group

/-- The declaration of a group that is made of records, each with its number. -/
def gather (group : Key × Bool) (ps : List (Record × Nat)) : Declaration where
  key := group.1
  body :=
    if group.2 then .stub
    else .interface (ps.filterMap fun p => p.1.member? (fragment.siteAt p.2))
  sites := ps.head?.toList.map fun p => fragment.siteAt p.2

/-- The declarations of a fragment, with nothing lost of its records and nothing taken twice. -/
structure Grouped (ds : List Declaration) : Prop where
  /-- At the site of a record of a member stands what the record says, and nothing else. -/
  overload : ∀ (index : Nat) (interfaceName memberName : String) (written : WrittenSignature)
    (home? : Option String),
    fragment.records[index]? = some (.member interfaceName memberName written home?) →
    ((ds.flatMap fun d => d.overloads.map fun p => (d.group, p)).filter fun q =>
        q.2.2.site = fragment.siteAt index)
      = [(((Record.member interfaceName memberName written home?).key, false), memberName,
          ⟨written.lower, fragment.siteAt index⟩)]
  /-- An interface has a member for each record of its key, in the order of the records. -/
  members : ∀ d ∈ ds, d.isStub = false → d.members =
    (fragment.records.zipIdx.filter fun p => p.1.key = d.key).filterMap fun p =>
      p.1.member? (fragment.siteAt p.2)
  /-- Each group of records has one declaration, and there is no other. -/
  once : ∀ group, (ds.filter fun d => d.group = group).length
    = if group ∈ fragment.records.map Record.group then 1 else 0
  /-- A declaration has the site of the first record of its group. -/
  site : ∀ d ∈ ds, fragment.first d.group < fragment.records.length ∧
    ∃ site, d.sites = [site] ∧ site.file = fragment.file ∧
      site.ordinal.toNat = fragment.first d.group
  order : ds.Pairwise fun d d' => fragment.first d.group < fragment.first d'.group

/-! ### One group -/

variable {fragment} {group : Key × Bool}

/-- One more record of a group, at the end. -/
theorem join_gather {ps : List (Record × Nat)} (hps : ps ≠ []) {p : Record × Nat}
    (hp : p.1.group = group) :
    p.1.join (fragment.siteAt p.2) (some (fragment.gather group ps))
      = fragment.gather group (ps ++ [p]) := by
  obtain ⟨record, index⟩ := p
  obtain ⟨q, qs, rfl⟩ := List.exists_cons_of_ne_nil hps
  subst hp
  cases record with
  | stub name => rfl
  | member interfaceName memberName written home? =>
    rw [gather, gather, List.filterMap_append]
    rfl

/-- The declaration of a group after all its records. -/
theorem foldl_join {ps : List (Record × Nat)} (hne : ps ≠ []) (hps : ∀ p ∈ ps, p.1.group = group) :
    ps.foldl (fun d? p => some (p.1.join (fragment.siteAt p.2) d?)) none
      = some (fragment.gather group ps) := by
  induction ps using List.reverseRecOn with
  | nil => exact absurd rfl hne
  | append_singleton ps p ih =>
    have hp : p.1.group = group := hps p (List.mem_append_right _ (List.mem_singleton_self p))
    rw [List.foldl_concat]
    by_cases h : ps = []
    · subst h hp
      obtain ⟨record, index⟩ := p
      cases record <;> rfl
    · rw [ih h fun q hq => hps q (List.mem_append_left _ hq), join_gather h hp]

variable (fragment)

/-- The records of a group, each with its number. -/
def numbered (group : Key × Bool) : List (Record × Nat) :=
  fragment.records.zipIdx.filter fun p => p.1.group = group

theorem mem_numbered_iff (group : Key × Bool) (record : Record) (index : Nat) :
    (record, index) ∈ fragment.numbered group
      ↔ fragment.records[index]? = some record ∧ record.group = group := by
  rw [numbered, List.mem_filter, List.mk_mem_zipIdx_iff_getElem?, decide_eq_true_iff]

/-- Only the records of members give members, so the others of the key may stay among them. -/
theorem filterMap_numbered (key : Key) :
    ((fragment.numbered (key, false)).filterMap fun p => p.1.member? (fragment.siteAt p.2))
      = (fragment.records.zipIdx.filter fun p => p.1.key = key).filterMap fun p =>
          p.1.member? (fragment.siteAt p.2) := by
  rw [numbered, List.filterMap_filter, List.filterMap_filter]
  refine List.filterMap_congr fun p _ => ?_
  obtain ⟨record, index⟩ := p
  cases record with
  | stub name => simp [Record.group, Record.isStub, Record.member?]
  | member interfaceName memberName written home? => simp [Record.group, Record.isStub]

theorem numbered_ne_nil {group : Key × Bool} (h : group ∈ fragment.groups.keys) :
    fragment.numbered group ≠ [] := by
  obtain ⟨record, hrecord, hsame⟩ := (fragment.mem_keys_groups group).mp h
  obtain ⟨index, hindex⟩ := List.getElem?_of_mem hrecord
  exact List.ne_nil_of_mem ((fragment.mem_numbered_iff group record index).mpr ⟨hindex, hsame⟩)

/-- What a fragment declares, group by group. -/
theorem declarations_eq : fragment.declarations = fragment.groups.keys.map fun group =>
    fragment.gather group (fragment.numbered group) := by
  have hgroups : fragment.groups = fragment.groups.keys.map fun group =>
      (group, fragment.gather group (fragment.numbered group)) := by
    refine Assoc.eq_map_keys fragment.nodup_keys_groups fun group hgroup => ?_
    rw [groups_eq, Assoc.get?_foldl_alter (fun p : Record × Nat => p.1.group)
      (fun p => p.1.join ⟨fragment.file, p.2.toUInt32⟩)]
    exact foldl_join (fragment.numbered_ne_nil hgroup) fun p hp =>
      of_decide_eq_true (List.mem_filter.mp hp).2
  calc fragment.declarations = fragment.groups.values := rfl
    _ = _ := by
      rw [Assoc.values, hgroups, List.map_map, ← hgroups]
      rfl

/-- Each record has a part in a declaration. -/
theorem mem_declarations_of_getElem? {index : Nat} {record : Record}
    (h : fragment.records[index]? = some record) :
    fragment.gather record.group (fragment.numbered record.group) ∈ fragment.declarations := by
  rw [declarations_eq]
  refine List.mem_map_of_mem ((fragment.mem_keys_groups _).mpr ?_)
  exact ⟨record, List.mem_of_getElem? h, rfl⟩

theorem group_gather {group : Key × Bool} (ps : List (Record × Nat)) :
    (fragment.gather group ps).group = group := by
  obtain ⟨key, isStub⟩ := group
  cases isStub <;> rfl

end Fragment

/-! ### Lists without repetition -/

/-- Where no two elements have the same image, an element is the only one with its own. -/
theorem filter_eq_singleton_of_nodup {α β : Type} [DecidableEq β] {f : α → β} {as : List α}
    (h : (as.map f).Nodup) {a : α} (ha : a ∈ as) : (as.filter fun b => f b = f a) = [a] := by
  induction as with
  | nil => exact absurd ha List.not_mem_nil
  | cons a' as ih =>
    obtain ⟨hnew, hrest⟩ := List.nodup_cons.mp h
    rcases List.mem_cons.mp ha with rfl | ha
    · rw [List.filter_cons_of_pos (by simp), List.filter_eq_nil_iff.mpr]
      intro b hb hsame
      exact hnew (of_decide_eq_true hsame ▸ List.mem_map_of_mem hb)
    · have hne : f a' ≠ f a := fun hsame => hnew (hsame ▸ List.mem_map_of_mem ha)
      rw [List.filter_cons_of_neg (by simpa using hne), ih hrest ha]

/-! ### Fragments -/

namespace Fragment

variable (fragment : Fragment)

/-- The groups come in the order of their first records. -/
theorem pairwise_first : fragment.groups.keys.Pairwise fun group group' =>
    fragment.first group < fragment.first group' := by
  rw [keys_groups]
  exact pairwise_findIdx_eraseDups Record.group fragment.records

/-- The first of the records of a group has the number of the first record of the group. -/
theorem head?_numbered {group : Key × Bool} (h : group ∈ fragment.groups.keys) :
    fragment.first group < fragment.records.length ∧
      (fragment.numbered group).head?.map Prod.snd = some (fragment.first group) := by
  obtain ⟨record, hrecord, hsame⟩ := (fragment.mem_keys_groups group).mp h
  have hlt : fragment.first group < fragment.records.length :=
    List.findIdx_lt_length.mpr ⟨record, hrecord, decide_eq_true hsame⟩
  refine ⟨hlt, ?_⟩
  have hfind : fragment.records.zipIdx.find? (fun p => p.1.group = group)
      = some (fragment.records[fragment.first group], fragment.first group) := by
    have hfirst : fragment.records[fragment.first group].group = group :=
      of_decide_eq_true (List.findIdx_getElem (w := hlt))
    rw [List.find?_eq_some_iff_getElem]
    refine ⟨decide_eq_true hfirst, fragment.first group, by simpa using hlt, by simp, ?_⟩
    intro j hj
    simpa using List.not_of_lt_findIdx hj
  rw [numbered, List.head?_filter, hfind]
  rfl

theorem ordinal_siteAt {index : Nat} (h : index < 2 ^ 32) :
    (fragment.siteAt index).ordinal.toNat = index :=
  Nat.mod_eq_of_lt h

variable {fragment}

/-- As long as records can be counted, no two overloads of a fragment share a site, whatever is
shown beside them. -/
theorem nodup_sites (h : fragment.records.length < 2 ^ 32) :
    ((fragment.declarations.flatMap fun d => d.overloads.map fun p => (d.group, p)).map
      fun q => q.2.2.site).Nodup := by
  have hsites := nodup_overloadSites h
  rw [List.map_flatMap]
  simp only [List.map_map]
  exact hsites

/-- What a fragment declares, as long as its records can be counted. -/
theorem grouped_declarations (h : fragment.records.length < 2 ^ 32) :
    fragment.Grouped fragment.declarations where
  overload := by
    intro index interfaceName memberName written home? hrecord
    refine filter_eq_singleton_of_nodup (f := fun q : (Key × Bool) × String × Overload => q.2.2.site)
      (nodup_sites h) (a := (_, memberName, ⟨written.lower, fragment.siteAt index⟩)) ?_
    -- the record is one of those that its group is made of
    have hnumbered := (fragment.mem_numbered_iff _ _ index).mpr ⟨hrecord, rfl⟩
    refine List.mem_flatMap.mpr ⟨_, fragment.mem_declarations_of_getElem? hrecord, ?_⟩
    refine List.mem_map.mpr ⟨(memberName, ⟨written.lower, fragment.siteAt index⟩), ?_, ?_⟩
    · refine List.mem_flatMap.mpr ⟨.single memberName written.lower (fragment.siteAt index), ?_, ?_⟩
      · exact List.mem_filterMap.mpr ⟨_, hnumbered, rfl⟩
      · exact List.mem_singleton_self _
    · rw [group_gather]
      rfl
  members := by
    intro d hd hstub
    rw [declarations_eq, List.mem_map] at hd
    obtain ⟨⟨key, isStub⟩, -, rfl⟩ := hd
    cases isStub with
    | true => exact absurd hstub nofun
    | false => exact fragment.filterMap_numbered key
  once := by
    intro group
    -- declarations are counted by the groups that they come from
    have hcount : (fragment.declarations.filter fun d => d.group = group).length
        = fragment.groups.keys.count group := by
      rw [← List.countP_eq_length_filter, ← map_group_declarations, List.count, List.countP_map]
      exact List.countP_congr fun d _ => decide_eq_true_iff.trans beq_iff_eq.symm
    rw [hcount, fragment.nodup_keys_groups.count, keys_groups]
    simp only [List.mem_eraseDups]
  site := by
    intro d hd
    rw [declarations_eq, List.mem_map] at hd
    obtain ⟨group, hgroup, rfl⟩ := hd
    obtain ⟨hlt, hhead⟩ := fragment.head?_numbered hgroup
    rw [group_gather]
    -- the site of a declaration is made of the number of the first record in its group
    obtain ⟨p, hp, hnumber⟩ := Option.map_eq_some_iff.mp hhead
    refine ⟨hlt, fragment.siteAt (fragment.first group), ?_, rfl,
      fragment.ordinal_siteAt (Nat.lt_trans hlt h)⟩
    rw [gather, hp, ← hnumber]
    rfl
  order := by
    rw [declarations_eq, List.pairwise_map]
    simp only [group_gather]
    exact fragment.pairwise_first

/-- A file that declares a module without a body twice, an interface of the same name in its body,
and one name in that body and in the global scope. -/
def interleaved : Fragment :=
  ⟨"fs.d.ts", [.stub "fs", .member "fs" "readFile" ⟨[], none⟩ (some "fs"),
    .member "Stats" "size" ⟨[], none⟩ (some "fs"), .stub "fs",
    .member "Stats" "size" ⟨[], some (.named "string")⟩ none,
    .member "fs" "readFile" ⟨[], some (.named "Stats")⟩ (some "fs")]⟩

theorem grouped_declarations_interleaved :
    interleaved.records.length < 2 ^ 32 ∧ interleaved.Grouped interleaved.declarations ∧
      interleaved.declarations.map (fun d => (d.group, d.sites.map Site.ordinal, d.overloadSites))
        = [((.own "fs", true), [0], []),
          ((.own "fs", false), [1], [⟨"fs.d.ts", 1⟩, ⟨"fs.d.ts", 5⟩]),
          ((⟨.ambient "fs", "Stats"⟩, false), [2], [⟨"fs.d.ts", 2⟩]),
          ((.ofGlobal "Stats", false), [4], [⟨"fs.d.ts", 4⟩])] := by
  have hcount : interleaved.records.length < 2 ^ 32 := by decide
  exact ⟨hcount, grouped_declarations hcount, by decide +kernel⟩

end Fragment

end Overlay
