/-
A string as it is shown inside a message.

`Text.shown` puts a string in quotes so that each of its characters can be told: a quote and a
backslash get a backslash, the common control characters their short escape, and any other
character that does not show is written by its code.
-/
import Overlay.Text.Hidden

namespace Overlay.Text

def shownChar (c : Char) : List Char :=
  if c = '"' then ['\\', '"']
  else if c = '\\' then ['\\', '\\']
  else if c = '\n' then ['\\', 'n']
  else if c = '\r' then ['\\', 'r']
  else if c = '\t' then ['\\', 't']
  else if c.toNat = 0 then ['\\', '0']
  else if isHidden c then ['\\', 'u', '{'] ++ Nat.toDigits 16 c.toNat ++ ['}']
  else [c]

/-- A string in quotes, each of its characters visible. -/
def shown (s : String) : String :=
  String.ofList ('"' :: s.toList.flatMap shownChar ++ ['"'])

end Overlay.Text
