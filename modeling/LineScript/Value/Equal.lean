import LineScript.Value.Basic

/-!
This module contains the equality of values, and the order of numbers. Booleans, integers and floating point numbers are
compared as numbers, exactly; ranges and lists by their elements; values of other kinds differ.
-/

namespace LineScript

/--
The number that a value stands for, as exact data.
-/
inductive Quantity
  /-- The quotient of an integer and a positive natural number. -/
  | ratio (num : Int) (den : Nat)
  | infinite (negative : Bool)
  | nan

namespace Quantity

/--
Equality of numbers. One that is not a number differs also from itself.
-/
def equal : Quantity → Quantity → Bool
  | .ratio num den, .ratio num' den' => num * den' = num' * den
  | .infinite negative, .infinite negative' => negative == negative'
  | _, _ => false

/--
Is a number below another one? One that is not a number is not below any, and none is below it.
-/
def less : Quantity → Quantity → Bool
  | .ratio num den, .ratio num' den' => num * den' < num' * den
  | .infinite negative, .infinite negative' => negative && !negative'
  | .infinite negative, .ratio .. => negative
  | .ratio .., .infinite negative => !negative
  | _, _ => false

/--
The number that a floating point number stands for.
-/
def ofBinary64 : Binary64 → Quantity
  | .finite negative mantissa exponent =>
    let (num, den) := Binary64.ratio negative mantissa exponent
    .ratio num den
  | .infinite negative => .infinite negative
  | .nan => .nan

end Quantity

namespace Value

/--
The number that a value stands for, if it is one.
-/
def quantity? : Value → Option Quantity
  | .bool b => some (.ratio b.toInt 1)
  | .int i => some (.ratio i 1)
  | .float x => some (.ofBinary64 x)
  | _ => none

/--
Ranges are equal if they have the same elements.
-/
def rangeEqual (start stop step start' stop' step' : Int) : Bool :=
  let size := rangeSize start stop step
  size == rangeSize start' stop' step' &&
    (size == 0 || (start == start' && (size == 1 || step == step')))

mutual

/--
Equality of values.
-/
def equal : Value → Value → Bool
  | .null, .null => true
  | .finish, .finish => true
  | .text s, .text t => s == t
  | .range start stop step, .range start' stop' step' =>
    rangeEqual start stop step start' stop' step'
  | .list items, .list items' => equalAll items items'
  | value, value' =>
    match value.quantity?, value'.quantity? with
    | some q, some q' => q.equal q'
    | _, _ => false

/--
Equality of lists of values.
-/
def equalAll : List Value → List Value → Bool
  | [], [] => true
  | item :: items, item' :: items' => equal item item' && equalAll items items'
  | _, _ => false

end

end Value

end LineScript
