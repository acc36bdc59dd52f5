/-
Numbers in JSON text.

`Literal.read` finds the extent of a number: a sign, whole digits, a fraction and an exponent.
`Literal.numeral?` gives its value.  A whole number within 64 bits is kept exactly.  Any other is
a float, found in three roundings at most: the leading digits as far as they fit in 64 bits are
rounded to a float, which is then multiplied or divided by a power of ten.  A number that leaves
the range of floats has no value.
-/
import Overlay.Json.Draft

namespace Overlay

/-- A number as written. -/
structure Literal where
  negative : Bool
  whole : List Char
  fraction : List Char
  /-- The sign (`true` for minus) and the digits of the exponent, if it has one. -/
  exponent : Option (Bool × List Char)
deriving DecidableEq, Repr

namespace Literal

/-! ### Extent -/

/-- The text ends inside a number: one who passes over it finds a bad number. -/
def unfinished : Draft :=
  .clipped .malformed

/-- One digit or more. -/
def readDigits (text : List Char) : Except Draft (List Char × List Char) :=
  match text.span Char.isDigit with
  | ([], []) => .error unfinished
  | ([], _ :: _) => .error (.broken .malformed)
  | found => .ok found

/-- The digits before the point: a leading zero stands alone. -/
def readWhole (text : List Char) : Except Draft (List Char × List Char) := do
  let (digits, rest) ← readDigits text
  match digits with
  | '0' :: _ :: _ => .error (.broken .malformed)
  | _ => .ok (digits, rest)

/-- The digits after the point; none if there is no point. -/
def readFraction : List Char → Except Draft (List Char × List Char)
  | '.' :: text => readDigits text
  | text => .ok ([], text)

/-- The exponent behind its mark. -/
def readPower (text : List Char) : Except Draft (Option (Bool × List Char) × List Char) := do
  let (minus, text) := match text with
    | '-' :: text => (true, text)
    | '+' :: text => (false, text)
    | text => (false, text)
  let (digits, rest) ← readDigits text
  .ok (some (minus, digits), rest)

/-- The exponent; none if there is no mark for it. -/
def readExponent : List Char → Except Draft (Option (Bool × List Char) × List Char)
  | 'e' :: text | 'E' :: text => readPower text
  | text => .ok (none, text)

/-- A number at the head of a text, and the text behind it. -/
def read (text : List Char) : Except Draft (Literal × List Char) := do
  let (negative, text) := match text with
    | '-' :: text => (true, text)
    | text => (false, text)
  let (whole, text) ← readWhole text
  let (fraction, text) ← readFraction text
  let (exponent, text) ← readExponent text
  .ok (⟨negative, whole, fraction, exponent⟩, text)

/-! ### Value -/

/-- The largest number of 64 bits. -/
def maxWord : Nat := UInt64.size - 1

/-- The largest exponent that is counted. -/
def maxPower : Nat := Nat.pow 2 31 - 1

/-- Digits packed into one word: the number they give as far as they fit in 64 bits, how many were
taken, and how many were left. -/
def pack (start : Nat) (digits : List Char) : Nat × Nat × Nat :=
  match digits with
  | [] => (start, 0, 0)
  | d :: rest =>
    let next := start * 10 + (d.toNat - '0'.toNat)
    if next ≤ maxWord then
      let (packed, taken, left) := pack next rest
      (packed, taken + 1, left)
    else (start, 0, digits.length)

def powerOfTen (n : Nat) : Float :=
  Float.ofScientific 1 false n

/-- `x · 10 ^ power`, for a power within the floats' range in one step, for a lower one in several.
Four steps bring any word to zero. -/
def scale (x : Float) (power : Int) : (steps : Nat) → Option Float
  | 0 => some x
  | steps + 1 =>
    if power.natAbs ≤ 308 then
      if power ≥ 0 then
        let y := x * powerOfTen power.natAbs
        if y.isInf then none else some y
      else some (x / powerOfTen power.natAbs)
    else if x == 0 then some x
    else if power ≥ 0 then none
    else scale (x / powerOfTen 308) (power + 308) steps

/-- The value as a float; none if it is out of range. -/
def float? (literal : Literal) : Option Float :=
  let (head, _, left) := pack 0 literal.whole
  let (word, taken, _) := pack head literal.fraction
  let shift : Int := (left : Int) - taken
  let magnitude? := match literal.exponent with
    | none => scale word.toUInt64.toFloat shift 5
    | some (minus, digits) =>
      let power := Nat.ofDigitChars 10 digits 0
      if power ≤ maxPower then
        scale word.toUInt64.toFloat (if minus then shift - power else shift + power) 5
      else if word ≠ 0 ∧ ¬ minus then none
      else some 0.0
  magnitude?.map fun x => if literal.negative then -x else x

/-- The value; none if it is out of range. -/
def numeral? (literal : Literal) : Option Numeral :=
  let value := Nat.ofDigitChars 10 literal.whole 0
  let isWhole := literal.fraction.isEmpty && literal.exponent.isNone
  if isWhole && !literal.negative && decide (value ≤ maxWord) then some (.whole value)
  else if isWhole && literal.negative && decide (0 < value ∧ value ≤ Nat.pow 2 63) then
    some (.whole (-value))
  else literal.float?.map .float

/-- The draft of a number at the head of a text, and the text behind it. -/
def draft (text : List Char) : Draft × List Char :=
  match read text with
  | .error d => (d, [])
  | .ok (literal, rest) =>
    match literal.numeral? with
    | some n => (.number n, rest)
    | none => (.fault .malformed none, rest)

end Literal

end Overlay
