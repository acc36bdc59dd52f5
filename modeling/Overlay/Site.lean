/-
Places of declarations.

The text of a declaration is never seen here, so its place is the file it came from and the number
of its record in that file.
-/

namespace Overlay

/-- The place of a declaration or of one of its members.  Sites are ordered by file, then by
number. -/
structure Site where
  /-- The file; empty if it is not known. -/
  file : String
  /-- The number of the record in the file, from zero. -/
  ordinal : UInt32
deriving DecidableEq, Ord, Repr

/-- The site as it is shown. -/
def Site.text (site : Site) : String :=
  (if site.file.isEmpty then "<input>" else site.file) ++ "#" ++ toString site.ordinal.toNat

end Overlay
