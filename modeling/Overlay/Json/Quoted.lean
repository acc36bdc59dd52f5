/-
Strings in JSON text.

A string is read in two steps.  `Quoted.read` finds its extent and turns it into pieces: plain
characters, and the 16-bit units that `\u` escapes stand for.  `Quoted.join` puts the units
together: two halves of a surrogate pair make one character, and a half without its partner has
no value.
-/
import Overlay.Json.Draft

namespace Overlay.Quoted

/-- A piece of a string: a character, or a 16-bit unit written by its code. -/
inductive Piece where
  | char (c : Char)
  | unit (code : Nat)
deriving DecidableEq, Repr

/-! ### Extent -/

def hexDigit? (c : Char) : Option Nat :=
  if c.isDigit then some (c.toNat - '0'.toNat)
  else if 'a' ≤ c ∧ c ≤ 'f' then some (c.toNat - 'a'.toNat + 10)
  else if 'A' ≤ c ∧ c ≤ 'F' then some (c.toNat - 'A'.toNat + 10)
  else none

/-- The number that four hexadecimal digits give. -/
def hexNumber? (a b c d : Char) : Option Nat := do
  let a ← hexDigit? a
  let b ← hexDigit? b
  let c ← hexDigit? c
  let d ← hexDigit? d
  some (((a * 16 + b) * 16 + c) * 16 + d)

/-- The size in bytes of what is left of a text. -/
def byteSize (text : List Char) : Nat :=
  text.foldr (fun c size => c.utf8Size + size) 0

/-- The character that a short escape stands for. -/
def shortEscape? (c : Char) : Option Char :=
  match c with
  | '"' => some '"'
  | '\\' => some '\\'
  | '/' => some '/'
  | 'b' => some '\x08'
  | 'f' => some '\x0c'
  | 'n' => some '\n'
  | 'r' => some '\r'
  | 't' => some '\t'
  | _ => none

/-- The pieces of a string behind its opening quote, and the text behind its closing quote.  A
`\u` needs four bytes behind it before they are looked at. -/
def read : List Char → List Piece × Except Fault (List Char)
  | [] => ([], .error .truncated)
  | '"' :: rest => ([], .ok rest)
  | ['\\'] => ([], .error .truncated)
  | '\\' :: 'u' :: a :: b :: c :: d :: rest =>
    match hexNumber? a b c d with
    | none => ([], .error .malformed)
    | some code =>
      let (pieces, ending) := read rest
      (.unit code :: pieces, ending)
  | '\\' :: 'u' :: rest =>
    ([], .error (if byteSize rest < 4 then .truncated else .malformed))
  | '\\' :: c :: rest =>
    match shortEscape? c with
    | none => ([], .error .malformed)
    | some c =>
      let (pieces, ending) := read rest
      (.char c :: pieces, ending)
  | c :: rest =>
    if c.toNat < 32 then ([], .error .malformed)
    else
      let (pieces, ending) := read rest
      (.char c :: pieces, ending)

/-! ### Value -/

/-- The first half of a surrogate pair. -/
def isHigh (code : Nat) : Bool :=
  0xD800 ≤ code && code ≤ 0xDBFF

/-- The second half of a surrogate pair. -/
def isLow (code : Nat) : Bool :=
  0xDC00 ≤ code && code ≤ 0xDFFF

/-- The character of a surrogate pair. -/
def pair (high low : Nat) : Char :=
  Char.ofNat ((high - 0xD800) * 0x400 + (low - 0xDC00) + 0x10000)

/-- The characters that pieces stand for; `none` if half of a pair stands alone.  With `cut` the
string goes on behind its last piece, so that a first half there may yet be followed. -/
def join (cut : Bool) : List Piece → Option (List Char)
  | [] => some []
  | .char c :: rest => (join cut rest).map (c :: ·)
  | .unit high :: .unit low :: rest =>
    if isHigh high then
      if isLow low then (join cut rest).map (pair high low :: ·) else none
    else if isLow high then none
    else (join cut (.unit low :: rest)).map (Char.ofNat high :: ·)
  | .unit code :: rest =>
    if isHigh code then
      if rest.isEmpty && cut then some [] else none
    else if isLow code then none
    else (join cut rest).map (Char.ofNat code :: ·)

/-- A string behind its opening quote, and the text behind it.  Half of a pair that stands alone
is found before what is wrong later on. -/
def draft (text : List Char) : Draft × List Char :=
  match read text with
  | (pieces, .ok rest) =>
    match join false pieces with
    | some chars => (.string (String.ofList chars), rest)
    | none => (.fault .malformed none, rest)
  | (pieces, .error f) =>
    if (join true pieces).isSome then (.broken f, []) else (.fault .malformed (some f), [])

end Overlay.Quoted
