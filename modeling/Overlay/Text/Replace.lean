/-
Replacing a text inside a text.
-/

namespace Overlay.Text

/-- Puts `new` in the place of each `old`, from left to right, past the `skip` characters that
belong to the last one found.  What is put in is not looked at again. -/
def replaceFrom (old new : List Char) : (skip : Nat) → List Char → List Char
  | _, [] => []
  | skip + 1, _ :: text => replaceFrom old new skip text
  | 0, c :: text =>
    if old.isPrefixOf (c :: text) then new ++ replaceFrom old new (old.length - 1) text
    else c :: replaceFrom old new 0 text

/-- Puts `new` in the place of each `old` in a text, where `old` is not empty. -/
def replaceAll (old new text : List Char) : List Char :=
  replaceFrom old new 0 text

end Overlay.Text
