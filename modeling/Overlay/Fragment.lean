/-
Fragments.

A fragment is the list of the records of one file.  `Fragment.declarations` groups them into raw
declarations, in the order of their first records: one for each module that is declared without a
body, and one for each interface.  A module that is declared without a body stays apart from an
interface with the same key, so that a fault in the one does not take the other with it.
-/
import Overlay.Assoc
import Overlay.Declaration
import Overlay.Record

namespace Overlay

structure Fragment where
  file : String
  records : List Record

namespace Fragment

/-- The declarations so far, by key and by whether a module is declared without a body. -/
abbrev Groups : Type :=
  Assoc (Key × Bool) Declaration

/-- Takes in a record that stands at a site.  A second declaration of a module without a body says
nothing new; a member goes to the end of its interface. -/
def Groups.add (groups : Groups) (site : Site) : Record → Groups
  | .stub name => groups.alter (.own name, true) fun d? => d?.getD (.stub name site)
  | .member interfaceName memberName written home? =>
    -- the site of the first record stays that of the interface
    let key := (Record.member interfaceName memberName written home?).key
    groups.alter (key, false) fun d? =>
      (d?.getD (.interface key site [])).push (.single memberName written.lower site)

/-- The groups of all records, each record standing at its number in the file. -/
def groups (fragment : Fragment) : Groups :=
  fragment.records.zipIdx.foldl (fun groups (record, index) =>
    groups.add ⟨fragment.file, index.toUInt32⟩ record) []

/-- The raw declarations of the fragment.  The site of a declaration is that of its first record,
the site of a member that of its own record. -/
def declarations (fragment : Fragment) : List Declaration :=
  fragment.groups.values

end Fragment

end Overlay
