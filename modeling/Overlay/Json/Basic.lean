/-
JSON values and their compact text.

A value keeps the members of an object in the order in which they are written, and its numbers
are natural numbers: codes, ordinals and counts are all that this library writes.  `Json.chars`
is the text with no blank in it, `Json.render` the same as a string.
-/

namespace Overlay

/-- A JSON value, its object members in the order they are written. -/
inductive Json where
  | null
  | bool (value : Bool)
  | number (value : Nat)
  | string (value : String)
  | array (items : List Json)
  | object (members : List (String × Json))

namespace Json

/-! ### Strings -/

/-- The written form of one character inside quotes: a quote, a backslash and the control
characters below the blank are escaped, all else stands for itself. -/
def escape (c : Char) : List Char :=
  if c = '"' then ['\\', '"']
  else if c = '\\' then ['\\', '\\']
  else if c = '\x08' then ['\\', 'b']
  else if c = '\x0c' then ['\\', 'f']
  else if c = '\n' then ['\\', 'n']
  else if c = '\r' then ['\\', 'r']
  else if c = '\t' then ['\\', 't']
  else if c.toNat < 32 then
    ['\\', 'u', '0', '0', Nat.digitChar (c.toNat / 16), Nat.digitChar (c.toNat % 16)]
  else [c]

/-- A string in quotes. -/
def quoted (s : String) : List Char :=
  '"' :: s.toList.flatMap escape ++ ['"']

/-! ### Values -/

mutual

/-- The text of a value, without blanks. -/
def chars : Json → List Char
  | null => ['n', 'u', 'l', 'l']
  | bool true => ['t', 'r', 'u', 'e']
  | bool false => ['f', 'a', 'l', 's', 'e']
  | number n => Nat.toDigits 10 n
  | string s => quoted s
  | array [] => ['[', ']']
  | array (item :: items) => '[' :: (item.chars ++ moreItems items)
  | object [] => ['{', '}']
  | object ((name, value) :: members) =>
    '{' :: (quoted name ++ ':' :: (value.chars ++ moreMembers members))
termination_by structural j => j

/-- The items after the first, and the closing bracket. -/
def moreItems : List Json → List Char
  | [] => [']']
  | item :: items => ',' :: (item.chars ++ moreItems items)
termination_by structural items => items

/-- The members after the first, and the closing brace. -/
def moreMembers : List (String × Json) → List Char
  | [] => ['}']
  | (name, value) :: members =>
    ',' :: (quoted name ++ ':' :: (value.chars ++ moreMembers members))
termination_by structural members => members

end

/-- The compact text of a value. -/
def render (j : Json) : String :=
  String.ofList j.chars

/-! ### Short forms -/

def strings (texts : List String) : Json :=
  array (texts.map string)

/-- The value if there is one, else null. -/
def optional (value? : Option Json) : Json :=
  value?.getD null

end Json

end Overlay
