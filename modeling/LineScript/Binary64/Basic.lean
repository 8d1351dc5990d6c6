/-!
This module contains binary floating point numbers with 53 bits of precision, as exact data: a
finite number is a mantissa times a power of two. The one operation that rounds, `ofRatio`, takes a
quotient of natural numbers of any size to the nearest number, and a tie to the even mantissa.
-/

namespace LineScript

/--
A floating point number. In `finite` the mantissa is below `2 ^ 53` and the exponent at least
`-1074`, and one of them is the smallest possible, so that each number has one form.
-/
inductive Binary64
  /-- The number `mantissa * 2 ^ exponent`, or its opposite. -/
  | finite (negative : Bool) (mantissa : Nat) (exponent : Int)
  | infinite (negative : Bool)
  | nan
  deriving DecidableEq, Repr, Inhabited

namespace Binary64

/--
The number of bits of a mantissa.
-/
def precision : Nat := 53

/--
The exponent of the smallest positive number.
-/
def minExponent : Int := -1074

/--
The exponent of the largest numbers.
-/
def maxExponent : Int := 971

/--
The quotient `num / den` rounded to the nearest integer, a tie to the even one.
-/
def roundDiv (num den : Nat) : Nat :=
  let floor := num / den
  let twice := 2 * (num % den)
  if twice < den then floor
  else if den < twice then floor + 1
  else if floor % 2 = 0 then floor else floor + 1

/--
The quotient `num / den` divided by `2 ^ exponent`, as a quotient again.
-/
def scale (num den : Nat) : Int → Nat × Nat
  | .ofNat e => (num, den * Nat.pow 2 e)
  | .negSucc e => (num * Nat.pow 2 (e + 1), den)

/--
The exponent at which a positive quotient has a mantissa of full precision, or the smallest one.
-/
def exponentOf (num den : Nat) : Int :=
  let guess : Int := (num.log2 : Int) - den.log2 - (precision - 1 : Nat)
  let (scaledNum, scaledDen) := scale num den guess
  let exponent := if scaledNum < Nat.pow 2 (precision - 1) * scaledDen then guess - 1 else guess
  max exponent minExponent

/--
The number nearest to the quotient `num / den`, where `den` is not zero; `none` if it is beyond the
largest number.
-/
def ofRatio (num den : Nat) : Option Binary64 :=
  if num = 0 then some (.finite false 0 minExponent)
  else
    let exponent := exponentOf num den
    let (scaledNum, scaledDen) := scale num den exponent
    let rounded := roundDiv scaledNum scaledDen
    let (mantissa, exponent) :=
      if rounded = Nat.pow 2 precision then (Nat.pow 2 (precision - 1), exponent + 1)
      else (rounded, exponent)
    if maxExponent < exponent then none else some (.finite false mantissa exponent)

/--
The opposite number; zero has a sign too.
-/
def neg : Binary64 → Binary64
  | .finite negative mantissa exponent => .finite (!negative) mantissa exponent
  | .infinite negative => .infinite (!negative)
  | .nan => .nan

instance : Neg Binary64 := ⟨neg⟩

/--
A finite number as a quotient of an integer and a positive natural number.
-/
def ratio (negative : Bool) (mantissa : Nat) (exponent : Int) : Int × Nat :=
  let signed : Int := if negative then -(mantissa : Int) else mantissa
  match exponent with
  | .ofNat e => (signed * Nat.pow 2 e, 1)
  | .negSucc e => (signed, Nat.pow 2 (e + 1))

/--
Is the number zero, of either sign?
-/
def isZero : Binary64 → Bool
  | .finite _ mantissa _ => mantissa = 0
  | _ => false

@[simp]
theorem neg_neg (x : Binary64) : x.neg.neg = x := by
  cases x <;> simp [neg]

end Binary64

end LineScript
