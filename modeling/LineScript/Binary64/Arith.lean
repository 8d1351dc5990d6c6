import LineScript.Binary64.Basic

/-!
This module contains sums and products of floating point numbers: the exact result, rounded.
-/

namespace LineScript.Binary64

/--
The number nearest to a quotient, infinite if it is beyond the largest one. Zero is negative if
`negativeZero`.
-/
def ofSigned (num : Int) (den : Nat) (negativeZero : Bool) : Binary64 :=
  let magnitude := (ofRatio num.natAbs den).getD (.infinite false)
  if num < 0 || (num = 0 && negativeZero) then magnitude.neg else magnitude

/--
The sum of two numbers.
-/
def add : Binary64 → Binary64 → Binary64
  | .finite n m e, .finite n' m' e' =>
    let (num, den) := ratio n m e
    let (num', den') := ratio n' m' e'
    ofSigned (num * den' + num' * den) (den * den') (n && n')
  | .infinite n, .infinite n' => if n = n' then .infinite n else .nan
  | .infinite n, .finite .. => .infinite n
  | .finite .., .infinite n => .infinite n
  | .nan, _ => .nan
  | _, .nan => .nan

/--
The product of two numbers.
-/
def mul : Binary64 → Binary64 → Binary64
  | .finite n m e, .finite n' m' e' =>
    let (num, den) := ratio n m e
    let (num', den') := ratio n' m' e'
    ofSigned (num * num') (den * den') (n != n')
  | .infinite n, .infinite n' => .infinite (n != n')
  | .infinite n, .finite n' m _ => if m = 0 then .nan else .infinite (n != n')
  | .finite n m _, .infinite n' => if m = 0 then .nan else .infinite (n != n')
  | .nan, _ => .nan
  | _, .nan => .nan

/--
The number nearest to a natural number.
-/
def ofNat (n : Nat) : Binary64 := ofSigned n 1 false

end LineScript.Binary64
