/-
The shortest decimal of a float.

A finite float other than zero is `m · 2 ^ q`.  The reals nearer to it than to any other float form
an interval; its ends belong to it when `m` is even, since ties are rounded to even.
`Decimal.shortest` looks for a decimal with the fewest digits in that interval, and among those for
the nearest: for one digit, two digits, and so on, it tries the two neighbours of the value on the
grid of that many digits.  Seventeen digits always suffice.

`Decimal.ofFloat` is the text of that decimal under the layout below.
-/

namespace Overlay

/-- A positive decimal number, `digits · 10 ^ exponent`. -/
structure Decimal where
  digits : Nat
  exponent : Int
deriving DecidableEq, Repr

namespace Decimal

/-- A fraction `numerator / denominator` times a power. -/
def ratio (base numerator : Nat) (power : Int) : Nat × Nat :=
  if power ≥ 0 then (numerator * Nat.pow base power.toNat, 1)
  else (numerator, Nat.pow base (-power).toNat)

/-- Whether `a / b ≤ c / d`, or `a / b < c / d` with `strict`. -/
def below (strict : Bool) : Nat × Nat → Nat × Nat → Bool
  | (a, b), (c, d) => if strict then a * d < c * b else a * d ≤ c * b

/-- A positive number of the form `m · 2 ^ q`, with the interval of reals that are rounded to it,
its bounds in quarters of the last binary place. -/
structure Binary where
  m : Nat
  q : Int
  low : Nat × Nat
  high : Nat × Nat

/-- The number `m · 2 ^ q`.  Below a power of two the floats stand twice as close. -/
def Binary.of (m : Nat) (q : Int) : Binary :=
  let closeBelow := m == Nat.pow 2 52 && q > -1074
  ⟨m, q, ratio 2 (4 * m - if closeBelow then 1 else 2) (q - 2), ratio 2 (4 * m + 2) (q - 2)⟩

/-- Whether a decimal is rounded to the number. -/
def Binary.covers (x : Binary) (d : Decimal) : Bool :=
  let strict := x.m % 2 == 1
  let value := ratio 10 d.digits d.exponent
  below strict x.low value && below strict value x.high

/-- The number of digits before the point, or minus the number of zeros behind it. -/
def Binary.places (x : Binary) : Int :=
  let (a, b) := ratio 2 x.m x.q
  -- the least float has fewer than 400 zeros behind the point
  ((Nat.toDigits 10 (a * Nat.pow 10 400 / b)).length : Int) - 400

/-- The decimals of `count` digits on the two sides of the number, the nearer one first, in a tie
the even one. -/
def Binary.neighbours (x : Binary) (count : Nat) : List Decimal :=
  let exponent := x.places - count
  let (a, b) := ratio 2 x.m x.q
  let (a, b) := if exponent ≥ 0 then (a, b * Nat.pow 10 exponent.toNat)
    else (a * Nat.pow 10 (-exponent).toNat, b)
  let lower : Decimal := ⟨a / b, exponent⟩
  let upper : Decimal := ⟨a / b + 1, exponent⟩
  let twice := 2 * (a % b)
  if twice < b ∨ (twice = b ∧ lower.digits % 2 = 0) then [lower, upper] else [upper, lower]

/-- The decimal without its closing zeros. -/
def trim (d : Decimal) : (steps : Nat) → Decimal
  | 0 => d
  | steps + 1 =>
    if d.digits % 10 = 0 ∧ d.digits ≠ 0 then trim ⟨d.digits / 10, d.exponent + 1⟩ steps else d

/-- The shortest decimal that is rounded to the number, and of several the nearest. -/
def Binary.shortest (x : Binary) : Decimal :=
  let found := (List.range 17).findSome? fun n => (x.neighbours (n + 1)).find? x.covers
  (found.getD ⟨0, 0⟩).trim 20

/-! ### Layout -/

def zeros (n : Nat) : List Char :=
  List.replicate n '0'

/-- A number that starts past the fifth place behind the point, or has more than sixteen digits
before it, gets an exponent with a sign.  All others are written out, with one digit or more on both
sides of the point. -/
def chars (d : Decimal) : List Char :=
  let digits := Nat.toDigits 10 d.digits
  let lead : Int := digits.length + d.exponent - 1
  if lead < -5 ∨ 15 < lead then
    let power := Nat.toDigits 10 lead.natAbs
    let mantissa := match digits with
      | first :: second :: rest => first :: '.' :: second :: rest
      | digits => digits
    mantissa ++ ['e', if lead < 0 then '-' else '+'] ++ power
  else if d.exponent ≥ 0 then digits ++ zeros d.exponent.toNat ++ ['.', '0']
  else if lead ≥ 0 then digits.take (lead.toNat + 1) ++ '.' :: digits.drop (lead.toNat + 1)
  else ['0', '.'] ++ zeros (-lead - 1).toNat ++ digits

/-- The text of a finite float: the fewest digits that read back as it. -/
def ofFloat (x : Float) : String :=
  let bits := x.toBits.toNat
  let sign := if bits / Nat.pow 2 63 = 1 then ['-'] else []
  let exponent : Nat := bits / Nat.pow 2 52 % Nat.pow 2 11
  let fraction := bits % Nat.pow 2 52
  let magnitude :=
    if exponent = 0 ∧ fraction = 0 then ['0', '.', '0']
    else if exponent = 0 then (Binary.of fraction (-1074)).shortest.chars
    else (Binary.of (fraction + Nat.pow 2 52) ((exponent : Int) - 1075)).shortest.chars
  String.ofList (sign ++ magnitude)

end Decimal

end Overlay
