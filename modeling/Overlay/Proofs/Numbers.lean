/-
The numbers in reports.

The report on a further overload says which number it becomes.  The number is that of the overload
in the merged list.  It is never counted anew, so where overloads in front of it collapse, the
overload comes to stand further in front than its report says:

* `Overload.split_append` — what comes behind does not change what a split makes of a list;
* `Member.resolved_eq_split` — the overloads that stay and those that collapse, as a split;
* `Table.number_of_report` — the number in a report and the place of its overload in the table;
* `Table.number_of_unknownBefore` — a report with a number that no overload has.
-/
import Overlay.Proofs.Withdrawal

namespace Overlay

/-! ### Overloads behind others -/

namespace Overload

/-- The report on an overload that it becomes the one of a number. -/
def becomes (key : Key) (name : String) (o leading : Overload) (number : Nat) : Diagnostic :=
  (Diagnostic.ofKind .overloadAmbiguity o.site
    [key.member name, o.signature.text, toString number]).withRelated
      leading.site
      ("Highest-priority overload '" ++ leading.signature.text ++ "' is declared here.")

theorem split_append (os os' : List Overload) :
    (split os).1 <+: (split (os ++ os')).1 ∧ (split os).2 <+: (split (os ++ os')).2 := by
  constructor
  · rw [split_fst, split_fst]
    exact firsts_prefix os os'
  · refine prefix_append_of_concat (f := fun os => (split os).2) (fun os o => ?_) os os'
    rw [split_concat]
    split
    · exact List.prefix_append ..
    · exact List.prefix_rfl

/-- An overload that says nothing new beside those in front of it collapses. -/
theorem mem_split_snd {o : Overload} {before : List Overload} (h : o.isIn (split before).1 = true)
    (behind : List Overload) : o ∈ (split (before ++ o :: behind)).2 := by
  have hprefix := (split_append (before ++ [o]) behind).2
  rw [split_concat, if_pos h, List.append_assoc, List.singleton_append] at hprefix
  exact hprefix.subset (List.mem_append_right _ (List.mem_singleton_self o))

/-- Any other stays, behind those of the ones in front that stay. -/
theorem getElem?_split_fst {o : Overload} {before : List Overload}
    (h : ¬ o.isIn (split before).1 = true) (behind : List Overload) :
    (split (before ++ o :: behind)).1[(split before).1.length]? = some o := by
  have hprefix := (split_append (before ++ [o]) behind).1
  rw [split_concat, if_neg h, List.append_assoc, List.singleton_append] at hprefix
  obtain ⟨rest, hrest⟩ := hprefix
  rw [← hrest, List.append_assoc, List.getElem?_append_right (Nat.le_refl _), Nat.sub_self]
  rfl

theorem length_split (os : List Overload) :
    (split os).1.length + (split os).2.length = os.length := by
  rw [← List.length_append]
  exact (split_perm os).length_eq

end Overload

/-- Where no two overloads of a member were alike, they are split whether or not the list was gone
through. -/
theorem Member.resolved_eq_split (lookup : Lookup) (scope : Scope) {m : Member}
    (h : Overload.firsts m.overloads = m.overloads) :
    m.resolved lookup scope = Overload.split (m.overloads.map (Overload.resolve lookup scope)) := by
  have hfst := m.resolved_fst lookup scope h
  rw [resolved] at hfst ⊢
  split at hfst
  next hmany => rw [if_pos hmany]
  next hmany =>
    rw [if_neg hmany]
    rw [← Overload.split_fst] at hfst
    -- all overloads are kept, so that none is left to collapse
    have hlength := Overload.length_split (m.overloads.map (Overload.resolve lookup scope))
    rw [← hfst, Nat.add_eq_left, List.length_eq_zero_iff] at hlength
    exact Prod.ext hfst hlength.symm

section

variable (lookup : Lookup) (scope : Scope) {m : Member} {front behind : List Overload} {o : Overload}
  (hfirsts : Overload.firsts m.overloads = m.overloads)
  (hoverloads : m.overloads = front ++ o :: behind)

include hfirsts hoverloads

/-- An overload of a member that becomes alike one in front collapses. -/
theorem Member.mem_collapsedSites
    (h : (o.resolve lookup scope).isIn (front.map (Overload.resolve lookup scope)) = true) :
    o.site ∈ m.collapsedSites lookup scope := by
  have hsplit := m.resolved_eq_split lookup scope hfirsts
  rw [hoverloads, List.map_append, List.map_cons] at hsplit
  rw [← Overload.isIn_firsts, ← Overload.split_fst] at h
  rw [collapsedSites, hsplit]
  exact List.mem_map.mpr ⟨o.resolve lookup scope, Overload.mem_split_snd h _, rfl⟩

/-- Any other stays, and comes to stand behind those of the ones in front that stay. -/
theorem Member.getElem?_resolve
    (h : ¬ (o.resolve lookup scope).isIn (front.map (Overload.resolve lookup scope)) = true) :
    (m.resolve lookup scope).overloads[(Overload.split
      (front.map (Overload.resolve lookup scope))).1.length]? = some (o.resolve lookup scope) := by
  have hsplit := m.resolved_eq_split lookup scope hfirsts
  rw [hoverloads, List.map_append, List.map_cons] at hsplit
  rw [← Overload.isIn_firsts, ← Overload.split_fst] at h
  rw [resolve, hsplit]
  exact Overload.getElem?_split_fst h _

end

/-! ### The number in a report -/

/-- A report on a member is on an overload behind others, and has the number behind theirs. -/
theorem Member.exists_of_mem_ambiguities {key : Key} {m : Member} {report : Diagnostic}
    (h : report ∈ m.ambiguities key) : ∃ leading before o behind,
      m.overloads = leading :: before ++ o :: behind ∧
      report = o.becomes key m.name leading ((leading :: before).length + 1) := by
  obtain ⟨name, overloads⟩ := m
  cases overloads with
  | nil => exact absurd h List.not_mem_nil
  | cons leading rest =>
    obtain ⟨⟨o, i⟩, hmem, rfl⟩ := List.mem_map.mp h
    have hplace : rest[i]? = some o := List.mk_mem_zipIdx_iff_getElem?.mp hmem
    obtain ⟨hi, rfl⟩ := List.getElem?_eq_some_iff.mp hplace
    refine ⟨leading, rest.take i, rest[i], rest.drop (i + 1), ?_, rfl⟩
    rw [List.cons_append, List.getElem_cons_drop, List.take_append_drop]

/-- Each report on an overload in a table is on one that stands in a member behind the first.  The
place of the overload counts those in front that have stayed; the number in the report counts those
that have collapsed, too. -/
theorem Table.number_of_report (options : Options) (ds : List Declaration) {report : Diagnostic}
    (h : report ∈ Diagnostic.withKind .overloadAmbiguity
      (ofRegistry options (.ofList ds)).diagnostics) :
    let merged := Merged.ofRegistry options (.ofList ds)
    let lookup := merged.lookup options
    ∃ d ∈ merged.declarations, ∃ m ∈ d.members, ∃ leading before o behind,
      m.overloads = leading :: before ++ o :: behind ∧
      d.resolve lookup ∈ (ofRegistry options (.ofList ds)).declarations ∧
      m.resolve lookup d.key.scope ∈ (d.resolve lookup).members ∧
      let front := Overload.split ((leading :: before).map (Overload.resolve lookup d.key.scope))
      (m.resolve lookup d.key.scope).overloads[front.1.length]?
          = some (o.resolve lookup d.key.scope) ∧
        report = o.becomes d.key m.name leading (front.1.length + front.2.length + 1) := by
  intro merged lookup
  rw [withKind_overloadAmbiguity] at h
  obtain ⟨hmerged, hsite⟩ := List.mem_filter.mp h
  have hreports := (Merged.perm_ambiguities options ds).mem_iff.mpr hmerged
  split at hreports
  next =>
    -- the report goes back to an overload behind the leading one of its member
    obtain ⟨d, hd, hreport⟩ := List.mem_flatMap.mp hreports
    obtain ⟨m, hm, hreport⟩ := List.mem_flatMap.mp hreport
    obtain ⟨leading, before, o, behind, hoverloads, rfl⟩ := Member.exists_of_mem_ambiguities hreport
    refine ⟨d, hd, m, hm, leading, before, o, behind, hoverloads, ?_, ?_, ?_⟩
    · rw [declarations_eq_map_resolve]
      exact List.mem_map_of_mem hd
    · rw [Declaration.members_resolve]
      exact List.mem_map_of_mem hm
    intro front
    constructor
    · refine m.getElem?_resolve lookup d.key.scope (Merged.firsts_overloads hd hm) hoverloads ?_
      -- otherwise the overload has collapsed, and the report is withdrawn
      intro hin
      have hcollapsed :=
        m.mem_collapsedSites lookup d.key.scope (Merged.firsts_overloads hd hm) hoverloads hin
      refine absurd (List.mem_flatMap.mpr ⟨d, hd, ?_⟩) (of_decide_eq_true hsite)
      exact List.mem_flatMap.mpr ⟨m, hm, hcollapsed⟩
    · rw [Overload.length_split, List.length_map]
  next => exact absurd hreports List.not_mem_nil

/-! ### A number that no overload has -/

/-- A file in which two overloads with unknown names are in front of a third one. -/
def Fragment.unknownBefore : Fragment :=
  ⟨"a.d.ts", [.ofCall ["A"], .ofCall ["B"], .ofCall ["string", "string"]]⟩

/-- Once the names are taken for `any`, there are two overloads, and the second one is said to become
the third. -/
theorem Table.number_of_unknownBefore :
    let table := ofRegistry .standard ([Fragment.unknownBefore].foldl Registry.addFragment .empty)
    let key : Key := .ofGlobal "Foo"
    let declared (types : List Ty) (ordinal : UInt32) : Overload :=
      ⟨⟨types.map fun type => .required "x" type, .any⟩, ⟨"a.d.ts", ordinal⟩⟩
    let report := (declared [.string, .string] 2).becomes key "f" (declared [.unresolved "A"] 0)
    ([Fragment.unknownBefore].map Fragment.file).Nodup ∧
      Options.standard.reportOverloads = true ∧
      (((table.get? key).bind fun d => d.member? "f").map fun m => m.overloads)
        = some [declared [.any] 0, declared [.string, .string] 2] ∧
      Diagnostic.withKind .overloadAmbiguity table.diagnostics = [report 3] ∧
      report 3 ≠ report 2 := by
  decide +kernel

theorem Table.number_of_report_unknownBefore :
    let ds := Fragment.unknownBefore.declarations
    let lookup := (Merged.ofRegistry .standard (.ofList ds)).lookup .standard
    ∃ report ∈ Diagnostic.withKind .overloadAmbiguity (ofRegistry .standard (.ofList ds)).diagnostics,
      ∃ d ∈ (Merged.ofRegistry .standard (.ofList ds)).declarations, ∃ m ∈ d.members,
        ∃ (leading o : Overload) (front : List Overload × List Overload),
          (m.resolve lookup d.key.scope).overloads[front.1.length]?
              = some (o.resolve lookup d.key.scope) ∧
            report = o.becomes d.key m.name leading (front.1.length + front.2.length + 1) := by
  intro ds lookup
  have hne : Diagnostic.withKind .overloadAmbiguity (ofRegistry .standard (.ofList ds)).diagnostics
      ≠ [] := by decide +kernel
  obtain ⟨report, hreport⟩ := List.exists_mem_of_ne_nil _ hne
  obtain ⟨d, hd, m, hm, leading, before, o, behind, -, -, -, hplace, hnumber⟩ :=
    number_of_report .standard ds hreport
  exact ⟨report, hreport, d, hd, m, hm, leading, o, _, hplace, hnumber⟩

end Overlay
