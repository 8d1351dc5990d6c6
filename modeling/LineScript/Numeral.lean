import LineScript.Text.Basic

/-!
This module contains decimal numerals: the digits of a number, the number of some digits, and the
limit on the conversion of whole numerals.
-/

namespace LineScript.Numeral

/--
The decimal digits of a natural number.
-/
def ofNat (n : Nat) : Text := Nat.toDigits 10 n

/--
The decimal digits of an integer, after a minus sign if it is negative.
-/
def ofInt : Int → Text
  | .ofNat n => ofNat n
  | .negSucc n => '-' :: ofNat (n + 1)

/--
The digits of an integer after its sign, which is always written.
-/
def ofIntSigned (i : Int) : Text :=
  if 0 ≤ i then '+' :: ofInt i else ofInt i

/--
The value of one digit.
-/
def digitValue (c : Char) : Nat := c.toNat - '0'.toNat

/--
The number that a row of digits denotes; the empty row denotes zero.
-/
def toNat (digits : Text) : Nat :=
  digits.foldl (fun n c => n * 10 + digitValue c) 0

/--
The integer that digits with an optional sign denote.
-/
def toInt : Text → Int
  | '-' :: digits => -(toNat digits : Int)
  | '+' :: digits => toNat digits
  | digits => toNat digits

/--
A row of one or more digits.
-/
def isNumeral (t : Text) : Bool := !t.isEmpty && t.all Text.isDigit

/--
No conversion between a number and a whole numeral handles more digits than this.
-/
def digitLimit : Nat := 4300

/--
The numeral of an integer, unless it has too many digits. The sign is not a digit.
-/
def ofInt? (i : Int) : Option Text :=
  if (ofNat i.natAbs).length ≤ digitLimit then some (ofInt i) else none

end LineScript.Numeral
