/-
Lines that show signatures.

A signature is shown in the report on an overload, in the related line of such a report, and in the
summary of a table.  If its record is plain, the line tells which signature it is, but for flags
that no text shows.  In a report it stands between quotation marks, the last two of the line; in a
summary it stands behind the name of its member.

* `Template.exists_fill_ambiguity` — where a report shows the signature that it is on;
* `Diagnostic.ReportsOn.settled_eq_of_text_eq`, `Diagnostic.ReportsOn.settled_eq_of_line_eq` — what
  the lines of reports tell;
* `Table.exists_plain_of_mem_summary` — where the signature in a line of a summary comes from;
* `Table.telling_ofRegistry` — what the lines of a table tell;
* `Signature.settled_eq_of_lines` — all of this in one statement;
* `Table.confuses_of_plain` — what names of members and modules can make of a line.
-/
import Overlay.Diagnostic.Report
import Overlay.Proofs.Collapse
import Overlay.Proofs.Fragment
import Overlay.Proofs.Plain
import Overlay.Proofs.Template
import Overlay.Table.Summary

namespace Overlay

/-! ### Signatures between quotation marks -/

/-- A line shows a signature between its last two quotation marks. -/
def Signature.QuotedIn (s : Signature) (line : String) : Prop :=
  ∃ A B, '\'' ∉ B ∧ line.toList = A ++ '\'' :: (s.text.toList ++ '\'' :: B)

theorem Signature.QuotedIn.append {s : Signature} {line : String} (h : s.QuotedIn line)
    (front : String) : s.QuotedIn (front ++ line) := by
  obtain ⟨A, B, hB, hline⟩ := h
  exact ⟨front.toList ++ A, B, hB, by rw [String.toList_append, hline, List.append_assoc]⟩

/-- Between quotation marks, plain signatures are told apart. -/
theorem Signature.QuotedIn.settled_eq {s s' : Signature} {line : String} (h : s.QuotedIn line)
    (h' : s'.QuotedIn line) (hs : s.Legible (Ty.Named .unresolved))
    (hs' : s'.Legible (Ty.Named .unresolved)) : s.settled = s'.settled := by
  -- no quotation mark stands inside a plain signature
  have hquote : ∀ {s : Signature}, s.Legible (Ty.Named .unresolved) → '\'' ∉ s.text.toList :=
    fun hs hmem => absurd (hs.mem_text hmem) (by decide)
  obtain ⟨A, B, hB, hline⟩ := h
  obtain ⟨A', B', hB', hline'⟩ := h'
  -- first the last quotation mark of the line is found, then the one before the signature
  have hlast : (A ++ '\'' :: s.text.toList) ++ '\'' :: B
      = (A' ++ '\'' :: s'.text.toList) ++ '\'' :: B' := by
    simpa using hline.symm.trans hline'
  obtain ⟨hfirst, -⟩ := append_cons_inj_of_last hB hB' hlast
  obtain ⟨-, htext⟩ := append_cons_inj_of_last (hquote hs) (hquote hs') hfirst
  exact settled_eq_of_text_eq (Ty.naming_named Ty.keepsNames_unresolved) hs hs'
    (String.toList_inj.mp htext)

/-! ### Reports -/

theorem Overload.Plain.legible {o : Overload} (h : o.Plain) :
    o.signature.Legible (Ty.Named .unresolved) := by
  obtain ⟨w, hw, ho⟩ := h
  rw [ho]
  exact hw.legible_lower

open Template Text in
/-- The template of reports on overloads, filled: the second argument stays as it is, if no place is
marked in it, whatever places are marked in the first. -/
theorem Template.exists_fill_ambiguity (label text number : String) (h : '{' ∉ text.toList) :
    ∃ A, ((Diagnostic.Kind.notice .overloadAmbiguity).template.fill [label, text, number]).toList
      = A ++ '\'' :: (text.toList ++ '\'' ::
        (" becomes overload ".toList ++ (number.toList ++ ['.']))) := by
  -- the template, cut at the quotation marks around the second mark
  have htemplate : (Diagnostic.Kind.notice .overloadAmbiguity).template.text.toList
      = '\'' :: mark 0 ++ "' is declared with differing signatures; ".toList ++ '\'' ::
          (mark 1 ++ '\'' :: (" becomes overload ".toList ++ (mark 2 ++ ['.']))) := by
    rw [Template.text, String.toList_ofList]
    simp [Diagnostic.Kind.notice, Part.chars]
  have hfill : ∀ template : Template, (template.fill [label, text, number]).toList
      = replaceAll (mark 2) number.toList (replaceAll (mark 1) text.toList
          (replaceAll (mark 0) label.toList template.text.toList)) := by
    intro template
    simp [fill, fillText]
  -- each mark is filled in between the quotation marks, and on both sides of them
  have hsplit : ∀ index ∈ [0, 1, 2], ∀ new A B C : List Char,
      replaceAll (mark index) new (A ++ '\'' :: (B ++ '\'' :: C))
        = replaceAll (mark index) new A ++ '\'' ::
          (replaceAll (mark index) new B ++ '\'' :: replaceAll (mark index) new C) := by
    intro index hindex new A B C
    have hmark : ∀ index ∈ [0, 1, 2], '\'' ∉ mark index ∧ mark index ≠ [] := by decide
    obtain ⟨hquote, hne⟩ := hmark index hindex
    rw [replaceAll_append_cons hquote hne, replaceAll_append_cons hquote hne]
  -- between them the second argument comes in, and stays
  have hplace : replaceAll (mark 1) text.toList (replaceAll (mark 0) label.toList (mark 1))
      = text.toList :=
    List.append_nil _
  have hkept : replaceAll (mark 2) number.toList text.toList = text.toList := replaceAll_eq_self h
  have htail : replaceAll (mark 2) number.toList (replaceAll (mark 1) text.toList
      (replaceAll (mark 0) label.toList (" becomes overload ".toList ++ (mark 2 ++ ['.']))))
        = " becomes overload ".toList ++ (number.toList ++ ['.']) := rfl
  rw [hfill, htemplate, hsplit 0 (by decide), hsplit 1 (by decide), hsplit 2 (by decide), hplace,
    hkept, htail]
  exact ⟨_, rfl⟩

/-- The report on a plain overload shows its signature. -/
theorem Overload.quotedIn_message {o : Overload} (ho : o.Plain) (key : Key) (name : String)
    (leading : Overload) (others : List Overload) :
    o.signature.QuotedIn (o.ambiguity key name leading others).message := by
  -- neither marks nor quotation marks come with the signature or with the number
  have hbrace : '{' ∉ o.signature.text.toList := fun hmem =>
    absurd (ho.legible.mem_text hmem) (by decide)
  have hdigits : '\'' ∉ (toString (others.length + 1)).toList := by
    rw [show (toString (others.length + 1)).toList = Nat.toDigits 10 _ from Nat.toList_repr]
    exact fun hmem =>
      absurd (Nat.isDigit_of_mem_toDigits (by decide) (by decide) hmem) (by decide)
  obtain ⟨A, hA⟩ := Template.exists_fill_ambiguity (key.member name) o.signature.text
    (toString (others.length + 1)) hbrace
  refine ⟨A, _, ?_, hA⟩
  rw [List.mem_append, List.mem_append]
  exact not_or.mpr ⟨by decide, not_or.mpr ⟨hdigits, by decide⟩⟩

/-- A report says of an overload that it is a further one, beside the leading one. -/
def Diagnostic.ReportsOn (report : Diagnostic) (o leading : Overload) : Prop :=
  ∃ key name others, report = o.ambiguity key name leading others

namespace Diagnostic.ReportsOn

variable {report report' : Diagnostic} {o o' leading leading' : Overload}

theorem quotedIn_text (h : report.ReportsOn o leading) (ho : o.Plain) :
    o.signature.QuotedIn report.text := by
  obtain ⟨key, name, others, rfl⟩ := h
  exact (Overload.quotedIn_message ho key name leading others).append _

theorem quotedIn_line (h : report.ReportsOn o leading) {r : Related} (hr : r ∈ report.related)
    (colour : Bool) : leading.signature.QuotedIn (r.line colour) := by
  obtain ⟨key, name, others, rfl⟩ := h
  obtain rfl := List.mem_singleton.mp hr
  have hmessage : leading.signature.QuotedIn
      ("Highest-priority overload '" ++ leading.signature.text ++ "' is declared here.") :=
    ⟨"Highest-priority overload ".toList, " is declared here.".toList, by decide, by simp⟩
  exact hmessage.append _

/-- The line of a report tells which signature it is on. -/
theorem settled_eq_of_text_eq (h : report.ReportsOn o leading) (h' : report'.ReportsOn o' leading')
    (ho : o.Plain) (ho' : o'.Plain) (htext : report.text = report'.text) :
    o.signature.settled = o'.signature.settled := by
  have hquoted := h'.quotedIn_text ho'
  rw [← htext] at hquoted
  exact (h.quotedIn_text ho).settled_eq hquoted ho.legible ho'.legible

/-- The line of a related site tells which signature the leading one is. -/
theorem settled_eq_of_line_eq (h : report.ReportsOn o leading) (h' : report'.ReportsOn o' leading')
    (hleading : leading.Plain) (hleading' : leading'.Plain) {r r' : Related}
    (hr : r ∈ report.related) (hr' : r' ∈ report'.related) {colour : Bool}
    (hline : r.line colour = r'.line colour) :
    leading.signature.settled = leading'.signature.settled := by
  have hquoted := h'.quotedIn_line hr' colour
  rw [← hline] at hquoted
  exact (h.quotedIn_line hr colour).settled_eq hquoted hleading.legible hleading'.legible

end Diagnostic.ReportsOn

/-! ### Tables -/

/-- Two lines of a summary tell whether their signatures are shown in the same way, if their members
have the same name, or if it ends at the first bracket in both. -/
theorem Line.text_eq_of_overload {key key' : Key} {member member' : String} {s s' : Signature}
    (hmember : member = member' ∨ '(' ∉ member.toList ∧ '(' ∉ member'.toList)
    (htext : (overload key member s).text = (overload key' member' s').text) :
    s.text = s'.text := by
  have hlist : member.toList ++ s.text.toList = member'.toList ++ s'.text.toList := by
    have hline := congrArg String.toList htext
    simp only [text, String.toList_append, List.append_assoc] at hline
    exact List.append_cancel_left hline
  rcases hmember with rfl | ⟨h, h'⟩
  · exact String.toList_inj.mp (List.append_cancel_left hlist)
  · -- a signature starts with a bracket, which is then the first of the line
    have hbracket : ∀ s : Signature, ∃ rest, s.text.toList = '(' :: rest := by
      intro s
      rw [Signature.text, Callable.joined]
      exact ⟨_, by simp only [String.toList_append]; rfl⟩
    obtain ⟨rest, hrest⟩ := hbracket s
    obtain ⟨rest', hrest'⟩ := hbracket s'
    rw [hrest, hrest'] at hlist
    obtain ⟨-, rfl⟩ := append_cons_inj_of_first h h' hlist
    exact String.toList_inj.mp (hrest.trans hrest'.symm)

/-- What the lines of a table tell. -/
structure Table.Telling (table : Table) : Prop where
  /-- What is reported as a further overload has the signature of a plain record. -/
  reports : ∀ report ∈ table.diagnostics, report.kind = .overloadAmbiguity →
    ∃ o leading : Overload, o.Plain ∧ leading.Plain ∧ report.ReportsOn o leading
  /-- Overloads of one member are told apart by their lines. -/
  overloads : ∀ key member s s', .overload key member s ∈ table.summary →
    .overload key member s' ∈ table.summary →
      (Line.overload key member s).text = (Line.overload key member s').text →
        s.settled = s'.settled
  /-- So are any two overloads, unless the name of a member goes on like a signature, or that of a
  module does not end where it seems to. -/
  lines : ∀ key key' member member' s s', .overload key member s ∈ table.summary →
    .overload key' member' s' ∈ table.summary →
      (member = member' ∨ '(' ∉ member.toList ∧ '(' ∉ member'.toList) →
      (key.scope = key'.scope ∨
        ∀ d ∈ table.declarations, ∀ name ∈ d.key.scope.module?, '"' ∉ name.toList) →
        (Line.overload key member s).text = (Line.overload key' member' s').text →
          s.settled = s'.settled

/-- All overloads of a declaration are plain. -/
def Declaration.Plain (d : Declaration) : Prop :=
  ∀ m ∈ d.members, ∀ o ∈ m.overloads, o.Plain

/-- The overloads of plain records are plain. -/
theorem Fragment.plain_of_mem_overloads {fragment : Fragment}
    (h : ∀ record ∈ fragment.records, record.Plain) {d : Declaration}
    (hd : d ∈ fragment.declarations) {m : Member} (hm : m ∈ d.members) {o : Overload}
    (ho : o ∈ m.overloads) : o.Plain := by
  obtain ⟨p, hp, rfl⟩ := List.mem_map.mp hd
  have hsaid : (m.name, o.unsited) ∈ fragment.said p.1 := by
    rw [said, ← (fragment.collects_of_mem_groups hp).overloads]
    refine List.mem_map.mpr ⟨(m.name, o), ?_, rfl⟩
    exact List.mem_flatMap.mpr ⟨m, hm, List.mem_map.mpr ⟨o, ho, rfl⟩⟩
  obtain ⟨record, hrecord, hoverload⟩ := List.mem_flatMap.mp hsaid
  have hplain := h record (List.mem_filter.mp hrecord).1
  cases record with
  | stub name => exact absurd hoverload List.not_mem_nil
  | member interfaceName memberName w home? =>
    have heq := List.mem_singleton.mp hoverload
    exact ⟨w, hplain, congrArg (fun q => q.2.signature) heq⟩

theorem Fragment.plain_flatMap_declarations {fragments : List Fragment}
    (h : ∀ fragment ∈ fragments, ∀ record ∈ fragment.records, record.Plain) :
    ∀ d ∈ fragments.flatMap Fragment.declarations, d.Plain := by
  intro d hd m hm o ho
  obtain ⟨fragment, hfragment, hd⟩ := List.mem_flatMap.mp hd
  exact plain_of_mem_overloads (h fragment hfragment) hd hm ho

/-- What plain declarations say together is plain. -/
theorem Merge.plain_union {key : Key} {ds : List Declaration} (h : ∀ d ∈ ds, d.Plain) :
    (union key ds).Plain := by
  intro m hm o ho
  obtain ⟨d, hd, m', hm', -, ho'⟩ := exists_mem_of_mem_union hm ho
  exact h d hd m' hm' o ho'

/-- The reports on the overloads of a member are on plain ones, if all of them are. -/
theorem Member.reportsOn_of_mem_ambiguities {key : Key} {m : Member}
    (h : ∀ o ∈ m.overloads, o.Plain) {report : Diagnostic} (hreport : report ∈ m.ambiguities key) :
    ∃ o leading : Overload, o.Plain ∧ leading.Plain ∧ report.ReportsOn o leading := by
  rw [ambiguities] at hreport
  split at hreport
  · exact absurd hreport List.not_mem_nil
  · next leading rest hoverloads =>
    rw [hoverloads] at h
    obtain ⟨⟨o, i⟩, ho, rfl⟩ := List.mem_map.mp hreport
    have hrest : o ∈ rest := List.fst_mem_of_mem_zipIdx ho
    exact ⟨o, leading, h o (.tail _ hrest), h leading (.head _), key, m.name, _, rfl⟩

namespace Lookup

theorem keepsNames_ruleType (keys : List Key) (acrossModules : Bool) (scope : Scope) :
    Ty.KeepsNames (ruleType keys acrossModules scope) := by
  intro name
  rw [ruleType]
  split
  next key hkey => exact .inr ⟨name_of_rule? hkey, by simp⟩
  next => exact .inl rfl

end Lookup

namespace Table

variable {options : Options} {ds : List Declaration}

/-- An overload of a line stands in the table. -/
theorem exists_of_mem_summary {table : Table} {key : Key} {member : String} {s : Signature}
    (h : .overload key member s ∈ table.summary) : ∃ d, table.Shows d ∧ d.key = key ∧
      ∃ m ∈ d.members, ∃ o ∈ m.overloads, o.signature = s := by
  -- a line of a declaration is its header or shows an overload of it
  have hlines : ∀ d : Declaration, .overload key member s ∈ d.lines →
      d.key = key ∧ ∃ m ∈ d.members, ∃ o ∈ m.overloads, o.signature = s := by
    intro d hd
    obtain hd | hd := List.mem_cons.mp hd
    · exact absurd hd nofun
    · obtain ⟨⟨name, o⟩, ho, heq⟩ := List.mem_map.mp hd
      obtain ⟨m, hm, ho⟩ := List.mem_flatMap.mp ho
      obtain ⟨o', ho', heq'⟩ := List.mem_map.mp ho
      obtain ⟨-, rfl⟩ := Prod.mk.inj heq'
      obtain ⟨hkey, -, hs⟩ := Line.overload.inj heq
      exact ⟨hkey, m, hm, o', ho', hs⟩
  -- it is a global declaration, or one that its module shows
  rcases List.mem_append.mp h with h | h
  · obtain ⟨d, hd, hline⟩ := List.mem_flatMap.mp h
    exact ⟨d, .inl (List.mem_of_mem_filter hd), hlines d hline⟩
  · obtain ⟨view, hview, hline⟩ := List.mem_flatMap.mp h
    obtain hline | hline := List.mem_cons.mp hline
    · exact absurd hline nofun
    · split at hline
      · exact absurd hline List.not_mem_nil
      · obtain ⟨d, hd, hline⟩ := List.mem_flatMap.mp hline
        exact ⟨d, .inr ⟨view, hview, hd⟩, hlines d hline⟩

/-- An overload of a line is a plain one, with its names looked up. -/
theorem exists_plain_of_mem_summary (hds : ∀ d ∈ ds, d.Plain) {key : Key} {member : String}
    {s : Signature} (h : .overload key member s ∈ (ofRegistry options (.ofList ds)).summary) :
    ∃ o : Overload, o.Plain ∧ s = o.signature.replace (typeIn options (.ofList ds) key.scope) := by
  obtain ⟨d, hd, rfl, m, hm, o, ho, rfl⟩ := exists_of_mem_summary h
  have hmem := mem_of_shows hd
  rw [declarations_ofRegistry, List.mem_map] at hmem
  obtain ⟨key, -, rfl⟩ := hmem
  rw [Declaration.members_ruled] at hm
  obtain ⟨m, hmember, rfl⟩ := List.mem_map.mp hm
  obtain ⟨o, hoverload, rfl⟩ := List.mem_map.mp (Overload.mem_of_mem_firsts ho)
  -- it was merged from plain declarations before its names were looked up
  have hplain : (Merge.union key ((Registry.ofList ds).wellFormed key)).Plain :=
    Merge.plain_union fun d hd => hds d (Registry.mem_of_mem_wellFormed hd)
  exact ⟨o, hplain m hmember o hoverload, rfl⟩

/-- The signatures of lines can be read. -/
theorem legible_of_mem_summary (hds : ∀ d ∈ ds, d.Plain) {key : Key} {member : String}
    {s : Signature} (h : .overload key member s ∈ (ofRegistry options (.ofList ds)).summary) :
    s.Legible (Ty.Named (typeIn options (.ofList ds) key.scope)) := by
  obtain ⟨o, ho, rfl⟩ := exists_plain_of_mem_summary hds h
  exact ho.legible.replace _

/-- What a name stands for is a reference to a key of the table, or `any`. -/
theorem linked_of_named {scope : Scope}
    (h : ∀ d ∈ (ofRegistry options (.ofList ds)).declarations, ∀ name ∈ d.key.scope.module?,
      '"' ∉ name.toList) {t : Ty} (ht : t.Named (typeIn options (.ofList ds) scope)) :
    t.Linked := by
  obtain ⟨name, hname, hword, rfl, hany⟩ := ht
  rw [typeIn, Lookup.ruleType] at hany ⊢
  split at hany
  next key hkey =>
    have hmem := Lookup.mem_of_rule? hkey
    rw [← keys_ofRegistry, List.mem_map] at hmem
    obtain ⟨d, hd, hdkey⟩ := hmem
    obtain rfl := Lookup.name_of_rule? hkey
    exact ⟨key, hname, hword, hdkey ▸ h d hd, rfl⟩
  next => exact absurd rfl hany

theorem reportsOn_of_mem_diagnostics (hds : ∀ d ∈ ds, d.Plain) {report : Diagnostic}
    (h : report ∈ (ofRegistry options (.ofList ds)).diagnostics)
    (hkind : report.kind = .overloadAmbiguity) :
    ∃ o leading : Overload, o.Plain ∧ leading.Plain ∧ report.ReportsOn o leading := by
  have hmem : report ∈ Diagnostic.withKind .overloadAmbiguity
      (ofRegistry options (.ofList ds)).diagnostics :=
    List.mem_filter.mpr ⟨h, decide_eq_true hkind⟩
  rw [withKind_overloadAmbiguity] at hmem
  -- no report on an overload is new in the table: it is one of the merge
  have hmerged := (Merged.perm_ambiguities options ds).mem_iff.mpr (List.mem_of_mem_filter hmem)
  split at hmerged
  · obtain ⟨d, hd, hreport⟩ := List.mem_flatMap.mp hmerged
    obtain ⟨m, hm, hreport⟩ := List.mem_flatMap.mp hreport
    rw [Merged.declarations_eq_map_keys, List.mem_map] at hd
    obtain ⟨key, -, rfl⟩ := hd
    have hplain : (Merge.union key ((Registry.ofList ds).wellFormed key)).Plain :=
      Merge.plain_union fun d hd => hds d (Registry.mem_of_mem_wellFormed hd)
    exact Member.reportsOn_of_mem_ambiguities (hplain m hm) hreport
  · exact absurd hmerged List.not_mem_nil

theorem settled_eq_of_mem_summary (hds : ∀ d ∈ ds, d.Plain) {key key' : Key}
    {member member' : String} {s s' : Signature}
    (h : .overload key member s ∈ (ofRegistry options (.ofList ds)).summary)
    (h' : .overload key' member' s' ∈ (ofRegistry options (.ofList ds)).summary)
    (hscope : key.scope = key'.scope ∨ ∀ d ∈ (ofRegistry options (.ofList ds)).declarations,
      ∀ name ∈ d.key.scope.module?, '"' ∉ name.toList)
    (htext : s.text = s'.text) : s.settled = s'.settled := by
  have hs := legible_of_mem_summary hds h
  have hs' := legible_of_mem_summary hds h'
  -- in one scope a name tells its type; in several, the name with its module does
  rcases hscope with hscope | hmodules
  · rw [← hscope] at hs'
    exact Signature.settled_eq_of_text_eq (Ty.naming_named (Lookup.keepsNames_ruleType _ _ _))
      hs hs' htext
  · exact Signature.settled_eq_of_text_eq Ty.naming_linked
      (hs.mono fun _ => linked_of_named hmodules) (hs'.mono fun _ => linked_of_named hmodules) htext

/-- The lines of the table of plain records tell their signatures. -/
theorem telling_ofRegistry (hds : ∀ d ∈ ds, d.Plain) :
    (ofRegistry options (.ofList ds)).Telling where
  reports _ h hkind := reportsOn_of_mem_diagnostics hds h hkind
  overloads _ _ _ _ h h' htext :=
    settled_eq_of_mem_summary hds h h' (.inl rfl) (Line.text_eq_of_overload (.inl rfl) htext)
  lines _ _ _ _ _ _ h h' hmember hscope htext :=
    settled_eq_of_mem_summary hds h h' hscope (Line.text_eq_of_overload hmember htext)

end Table

/-! ### Records and tables -/

/-- A signature is known from the line that shows it, but for the optional flags of variadic
parameters, if all names in its record are identifiers: from its own text, from the report on it,
from the report in which it leads, and from the summary of a table. -/
theorem Signature.settled_eq_of_lines :
    (∀ w w' : WrittenSignature, w.Plain → w'.Plain → w.lower.text = w'.lower.text →
      w.lower.settled = w'.lower.settled)
    ∧ (∀ (report report' : Diagnostic) (o o' leading leading' : Overload),
        report.ReportsOn o leading → report'.ReportsOn o' leading' →
          o.Plain → o'.Plain → leading.Plain → leading'.Plain →
            (report.text = report'.text → o.signature.settled = o'.signature.settled)
            ∧ ∀ r ∈ report.related, ∀ r' ∈ report'.related, ∀ colour,
                r.line colour = r'.line colour →
                  leading.signature.settled = leading'.signature.settled)
    ∧ ∀ (options : Options) (fragments : List Fragment),
        (∀ fragment ∈ fragments, ∀ record ∈ fragment.records, record.Plain) →
          (Table.ofRegistry options (fragments.foldl Registry.addFragment .empty)).Telling := by
  -- two records, two reports, and a table
  refine ⟨fun w w' h h' htext => ?_, ?_, fun options fragments h => ?_⟩
  · exact settled_eq_of_text_eq (Ty.naming_named Ty.keepsNames_unresolved) h.legible_lower
      h'.legible_lower htext
  · intro report report' o o' leading leading' h h' ho ho' hleading hleading'
    exact ⟨h.settled_eq_of_text_eq h' ho ho', fun r hr r' hr' colour =>
      h.settled_eq_of_line_eq h' hleading hleading' hr hr'⟩
  · rw [Registry.foldl_addFragment]
    exact Table.telling_ofRegistry (Fragment.plain_flatMap_declarations h)

namespace WrittenSignature

/-- A callback for items of a type that is declared nowhere.  Whether it may be called without items
is not shown. -/
def callback (optional : Bool) : WrittenSignature :=
  ⟨[⟨"callback", some (.function ⟨[⟨"items", some (.named "T[]"), optional, true⟩], none⟩),
    true, false⟩], some (.named "Function")⟩

theorem plain_callback (optional : Bool) : (callback optional).Plain := by
  cases optional <;> exact ⟨by decide, by decide⟩

/-- The overload that an interface has by it. -/
def callbackOverload (optional : Bool) : Overload :=
  ⟨(callback optional).lower, ⟨"index.d.ts", 0⟩⟩

/-- The report on that overload, beside the one with the other callback. -/
def callbackReport (optional : Bool) : Diagnostic :=
  (callbackOverload optional).ambiguity (.ofGlobal "Foo") "each" (callbackOverload !optional) []

/-- A file with both overloads. -/
def callbackFile : Fragment :=
  ⟨"index.d.ts", [.member "Foo" "each" (callback false) none,
    .member "Foo" "each" (callback true) none]⟩

def callbackTable : Table :=
  .ofRegistry .bare ([callbackFile].foldl Registry.addFragment .empty)

end WrittenSignature

open WrittenSignature in
/-- The two callbacks are not the same, and all lines that show them are. -/
theorem Signature.settled_eq_of_lines_callback :
    (callback false).lower ≠ (callback true).lower
    ∧ ((callback false).lower.text = (callback true).lower.text
      ∧ (callback false).lower.settled = (callback true).lower.settled)
    ∧ ((callbackReport false).text = (callbackReport true).text
      ∧ (callbackOverload false).signature.settled = (callbackOverload true).signature.settled)
    ∧ ∃ s s', s ≠ s' ∧ callbackTable.summary
        = [.interface (.ofGlobal "Foo"), .overload (.ofGlobal "Foo") "each" s,
          .overload (.ofGlobal "Foo") "each" s']
      ∧ (Line.overload (.ofGlobal "Foo") "each" s).text
        = (Line.overload (.ofGlobal "Foo") "each" s').text
      ∧ s.settled = s'.settled := by
  obtain ⟨htexts, hreports, htables⟩ := Signature.settled_eq_of_lines
  have htext : (callback false).lower.text = (callback true).lower.text := by decide +kernel
  have hreport : (callbackReport false).text = (callbackReport true).text := by decide +kernel
  have hplain : ∀ optional, (callbackOverload optional).Plain := fun optional =>
    ⟨_, plain_callback optional, rfl⟩
  -- `T[]` is declared nowhere, so that it is `any` in the table
  have hsummary : callbackTable.summary
      = [.interface (.ofGlobal "Foo"),
        .overload (.ofGlobal "Foo") "each" ((callback false).lower.replace fun _ => .any),
        .overload (.ofGlobal "Foo") "each" ((callback true).lower.replace fun _ => .any)] := by
    decide +kernel
  have hrecords : ∀ fragment ∈ [callbackFile], ∀ record ∈ fragment.records, record.Plain := by
    simp [callbackFile, Record.Plain, plain_callback]
  -- all premises hold, so that the theorem can be read at the two callbacks
  have htelling : callbackTable.Telling := htables .bare [callbackFile] hrecords
  refine ⟨by decide +kernel, ⟨htext, htexts _ _ (plain_callback _) (plain_callback _) htext⟩,
    ⟨hreport, ?_⟩, _, _, ?_, hsummary, ?_, ?_⟩
  · exact (hreports _ _ _ _ _ _ ⟨_, _, _, rfl⟩ ⟨_, _, _, rfl⟩ (hplain _) (hplain _) (hplain _)
      (hplain _)).1 hreport
  · decide +kernel
  · decide +kernel
  · refine htelling.overloads (.ofGlobal "Foo") "each" _ _ ?_ ?_ (by decide +kernel)
    · rw [hsummary]
      exact .tail _ (.head _)
    · rw [hsummary]
      exact .tail _ (.tail _ (.head _))

/-! ### Names that go on like what stands behind them -/

/-- Two lines of the summary show different signatures in the same way. -/
def Table.Confuses (table : Table) : Prop :=
  ∃ key key' member member' s s',
    .overload key member s ∈ table.summary ∧ .overload key' member' s' ∈ table.summary ∧
      (Line.overload key member s).text = (Line.overload key' member' s').text ∧
        s.settled ≠ s'.settled

namespace WrittenSignature

/-- A signature with one parameter, and with a callback for its result if one is given. -/
def unary (name : String) (callback? : Option WrittenSignature) : WrittenSignature :=
  ⟨[.required name none], callback?.map .function⟩

/-- A file with a member whose name goes on like a signature, and with one of that signature. -/
def memberFile : Fragment :=
  ⟨"index.d.ts", [.member "Foo" "f" (unary "a" (unary "b" none)) none,
    .member "Foo" "f(a: any) => " (unary "b" none) none]⟩

/-- A signature with parameters of these types. -/
def ofTypes (params : List (String × String)) : WrittenSignature :=
  ⟨params.map fun (name, type) => .required name (some (.named type)), none⟩

/-- A file with a module whose name goes on like a reference to another module. -/
def moduleFile : Fragment :=
  ⟨"index.d.ts", [.member "U" "g" (ofTypes []) (some "n"), .member "T" "g" (ofTypes []) (some "m"),
    .member "Foo" "f" (ofTypes [("x", "T"), ("y", "U")]) none,
    .member "U" "f" (ofTypes [("x", "U")]) (some "m\".T, y: \"n")]⟩

end WrittenSignature

open WrittenSignature in
/-- Plain records do not keep the lines of a summary apart.  A member and its signature may read
like another member with another signature, and so may a module and what it declares. -/
theorem Table.confuses_of_plain :
    ((∀ record ∈ memberFile.records, record.Plain)
      ∧ (ofRegistry .bare ([memberFile].foldl Registry.addFragment .empty)).Confuses)
    ∧ (∀ record ∈ moduleFile.records, record.Plain)
      ∧ (ofRegistry .bare ([moduleFile].foldl Registry.addFragment .empty)).Confuses := by
  have hcallback : (unary "a" (unary "b" none)).Plain := ⟨by decide, by decide⟩
  have hplain : (unary "b" none).Plain := ⟨by decide, by decide⟩
  have hnone : (ofTypes []).Plain := ⟨by decide, by decide⟩
  have hone : (ofTypes [("x", "U")]).Plain := ⟨by decide, by decide⟩
  have htwo : (ofTypes [("x", "T"), ("y", "U")]).Plain := ⟨by decide, by decide⟩
  refine ⟨⟨?_, ?_⟩, ?_, ?_⟩
  · simp [memberFile, Record.Plain, hcallback, hplain]
  · -- `f` takes `a` and gives a callback; the other member takes the `b` of that callback
    exact ⟨.ofGlobal "Foo", .ofGlobal "Foo", "f", "f(a: any) => ",
      (unary "a" (unary "b" none)).lower, (unary "b" none).lower, by decide +kernel⟩
  · simp [moduleFile, Record.Plain, hnone, hone, htwo]
  · -- the global `f` takes the types of `m` and `n`, the other one that of its own module
    exact ⟨.ofGlobal "Foo", ⟨.ambient "m\".T, y: \"n", "U"⟩, "f", "f",
      ⟨[.required "x" (.declared ⟨.ambient "m", "T"⟩),
        .required "y" (.declared ⟨.ambient "n", "U"⟩)], .any⟩,
      ⟨[.required "x" (.declared ⟨.ambient "m\".T, y: \"n", "U"⟩)], .any⟩, by decide +kernel⟩

end Overlay
