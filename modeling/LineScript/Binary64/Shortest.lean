import LineScript.Binary64.Basic
import LineScript.Numeral

/-!
This module contains the shortest decimals of floating point numbers. The decimals that read back as
a number are those in an interval around it; for one digit, two digits and so on, the two neighbours
of the number on that decimal grid are tried, so the first hit has the fewest digits. All arithmetic
is exact.
-/

namespace LineScript.Binary64

/--
The decimal `digits * 10 ^ exponent`.
-/
structure Decimal where
  digits : Nat
  exponent : Int
  deriving DecidableEq, Repr, Inhabited

/--
The decimals that read back as the number `value / den`: those from `low / den` to `high / den`, the
ends included if `closed`.
-/
structure Interval where
  low : Nat
  value : Nat
  high : Nat
  den : Nat
  closed : Bool
  deriving Repr

/--
The power `base ^ exponent` as a quotient.
-/
def power (base : Nat) : Int → Nat × Nat
  | .ofNat e => (base.pow e, 1)
  | .negSucc e => (1, base.pow (e + 1))

/--
The interval of `mantissa * 2 ^ exponent` ends half way to its neighbours. The neighbour below a
power of two is nearer than the one above it.
-/
def interval (mantissa : Nat) (exponent : Int) : Interval :=
  let (quarter, den) := power 2 (exponent - 2)
  let nearer := mantissa = Nat.pow 2 (precision - 1) && minExponent < exponent
  let below := if nearer then 1 else 2
  { low := (4 * mantissa - below) * quarter
    value := 4 * mantissa * quarter
    high := (4 * mantissa + 2) * quarter
    den := den
    closed := mantissa % 2 = 0 }

/--
The decimal exponent `p` of a positive quotient: it lies between `10 ^ (p - 1)` and `10 ^ p`, and is
not the latter.
-/
def magnitude (num den : Nat) : Int :=
  if den ≤ num then (Numeral.ofNat (num / den)).length
  else 1 - (Numeral.ofNat ((den - 1) / num)).length

namespace Interval

/--
Does the decimal lie in the interval?
-/
def contains (i : Interval) (d : Decimal) : Bool :=
  let (num, den) := power 10 d.exponent
  let point := d.digits * num * i.den
  if i.closed then i.low * den ≤ point && point ≤ i.high * den
  else i.low * den < point && point < i.high * den

/--
The decimal with `count` digits in the interval that is nearest to the number, of two equally near
ones the one with the even last digit.
-/
def nearest? (i : Interval) (count : Nat) : Option Decimal :=
  let exponent := magnitude i.value i.den - count
  let (num, den) := power 10 exponent
  let digits := (i.value * den) / (i.den * num)
  let below : Decimal := ⟨digits, exponent⟩
  let above : Decimal := ⟨digits + 1, exponent⟩
  match i.contains below, i.contains above with
  | true, true =>
    let twice := 2 * (i.value * den)
    let middle := (2 * digits + 1) * (i.den * num)
    if twice < middle then some below
    else if middle < twice then some above
    else if digits % 2 = 0 then some below else some above
  | true, false => some below
  | false, true => some above
  | false, false => none

end Interval

/--
The largest number of digits that is ever needed.
-/
def maxDigits : Nat := 17

/--
The decimal with the fewest digits that reads back as the positive number `mantissa * 2 ^ exponent`,
the nearest of those.
-/
def shortest (mantissa : Nat) (exponent : Int) : Decimal :=
  let i := interval mantissa exponent
  ((List.range maxDigits).findSome? fun k => i.nearest? (k + 1)).getD ⟨mantissa, exponent⟩

end LineScript.Binary64
