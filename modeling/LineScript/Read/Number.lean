import LineScript.Read.Scan

/-!
This module contains the read of numbers. The digits of a number are units, so they may come from
variables and substitutions; each unit counts as one place, however many digits its text has.
-/

namespace LineScript.Read

open Eval

/--
Digits that were read.
-/
structure Digits where
  /-- The number they denote; none if there is no digit. -/
  value : Option Nat := none
  /-- The number of places. -/
  places : Nat := 0
  /-- Did a semicolon end them? -/
  ended : Bool := false
  deriving DecidableEq, Repr, Inhabited

/--
One more place.
-/
def Digits.push (d : Digits) (unit : Nat) : Digits :=
  { d with value := some (d.value.getD 0 * 10 + unit), places := d.places + 1 }

/--
The judge on the units of a number. Units without text are skipped.
-/
def judgeDigit (endAtSemicolon : Bool) (d : Digits) (t : Text) : Verdict Digits :=
  if endAtSemicolon && t = [';'] then .keep { d with ended := true }
  else if t.isEmpty then .next d
  else if !Numeral.isNumeral t then .giveBack d
  else if Numeral.digitLimit < t.length then .refuse (.unreadable t.length)
  else .next (d.push (Numeral.toNat t))

/--
Read digits.
-/
def digits (unit : Eval Value) (options : Options) : Eval Digits :=
  scan unit (judgeDigit options.endAtSemicolon) {}

/--
A number: an integer, or one with a fraction.
-/
inductive Number
  | whole (i : Int)
  | decimal (x : Binary64)
  deriving DecidableEq, Repr, Inhabited

namespace Number

/--
The opposite number.
-/
def neg : Number → Number
  | .whole i => .whole (-i)
  | .decimal x => .decimal x.neg

/--
The number as a value.
-/
def toValue : Number → Value
  | .whole i => .int i
  | .decimal x => .float x

end Number

/--
Read an integer: digits after an optional minus sign. A minus sign without digits is given back,
unless a semicolon followed it.
-/
def int (unit : Eval Value) (options : Options) : Eval (Option Int) := do
  options.spaces
  let start ← index
  let negative ← token ['-']
  let d ← digits unit options
  if d.value.isNone && negative && !d.ended then moveTo start
  options.spaces
  return d.value.map fun n => if negative then -(n : Int) else n

/--
Read a point and digits after the digits `whole`. A point without digits is given back.
-/
def fraction (unit : Eval Value) (options : Options) (whole : Digits) : Eval (Option Number) := do
  let integer : Option Number := whole.value.map fun n => .whole n
  let point ← index
  if whole.ended then return integer
  if ← token ['.'] then
    let d ← digits unit options
    match d.value with
    | none =>
      moveTo point
      return integer
    | some n =>
      let scale := Nat.pow 10 d.places
      let x ← orFail .overflow (Binary64.ofRatio (whole.value.getD 0 * scale + n) scale)
      return some (.decimal x)
  else
    return integer

/--
Read a number: digits and a fraction after an optional minus sign, of which one is enough. If there
is none, all is given back, unless a semicolon was met.
-/
def float (unit : Eval Value) (options : Options) : Eval (Option Number) := do
  options.spaces
  let start ← index
  let negative ← token ['-']
  let whole ← digits unit options
  let number ← fraction unit options whole
  if number.isNone && !whole.ended then moveTo start
  options.spaces
  return if negative then number.map Number.neg else number

end LineScript.Read
