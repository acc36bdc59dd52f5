/-
Formats of the log.
-/

namespace Overlay

inductive LogFormat where
  | text
  | tree
  | json
deriving DecidableEq, Repr

/-- The format with a name, in capitals or not; any other name stands for plain text.  No letter
beyond the basic Latin ones has a small form in one of the names, so that these are all that has to
be made small. -/
def LogFormat.ofName (name : String) : LogFormat :=
  match (name.map Char.toLower) with
  | "tree" => .tree
  | "json" => .json
  | _ => .text

end Overlay
