import LineScript.Binary64.Basic
import LineScript.Text.Basic

/-!
This module contains the values that variables hold and commands return.
-/

namespace LineScript

/--
A value.
-/
inductive Value
  /-- No value. A read that meets it takes it for the end of the text. -/
  | null
  | bool (b : Bool)
  | text (t : Text)
  | int (i : Int)
  | float (x : Binary64)
  /-- The integers from `start` on, `step` apart, that stand before `stop`. -/
  | range (start stop step : Int)
  | list (items : List Value)
  /-- There is no further command. -/
  | finish
  deriving Inhabited

namespace Value

/--
Is this the sign that there is no further command?
-/
def isFinish : Value → Bool
  | .finish => true
  | _ => false

/--
A character as a text, or no value at the end of the text.
-/
def ofChar? : Option Char → Value
  | some c => .text [c]
  | none => .null

/--
The number of elements of a range. A step of zero gives none.
-/
def rangeSize (start stop step : Int) : Nat :=
  if 0 < step then ((stop - start + step - 1) / step).toNat
  else if step < 0 then ((start - stop - step - 1) / (-step)).toNat
  else 0

/--
Is the value one that a condition takes for true?
-/
def truthy : Value → Bool
  | .null | .finish => false
  | .bool b => b
  | .text t => !t.isEmpty
  | .int i => i ≠ 0
  | .float x => !x.isZero
  | .range start stop step => rangeSize start stop step ≠ 0
  | .list items => !items.isEmpty

end Value

end LineScript
