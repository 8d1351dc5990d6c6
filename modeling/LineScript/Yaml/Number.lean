import LineScript.Binary64.Arith
import LineScript.Binary64.Layout
import LineScript.Yaml.Problem

/-!
This module contains the numbers that scalars stand for. A scalar whose type is given explicitly may
have any text, so each reading can fail.
-/

namespace LineScript.Yaml

/--
A sign at the start of a text, and the text after it.
-/
def splitSign : Text → Bool × Text
  | '-' :: t => (true, t)
  | '+' :: t => (false, t)
  | t => (false, t)

/--
A text without underscores.
-/
def dropUnderscores (t : Text) : Text := t.filter (· ≠ '_')

/--
The value of a digit in some base, where letters follow after nine.
-/
def digitIn? (base : Nat) (c : Char) : Option Nat :=
  let n? :=
    if Text.isDigit c then some (c.toNat - '0'.toNat)
    else if 'a' ≤ c && c ≤ 'z' then some (c.toNat - 'a'.toNat + 10)
    else if 'A' ≤ c && c ≤ 'Z' then some (c.toNat - 'A'.toNat + 10)
    else none
  n?.filter (· < base)

/--
The number with one or more digits in a base.
-/
def ofDigits? (base : Nat) (digits : Text) : Option Nat :=
  if digits.isEmpty then none
  else digits.foldlM (fun n c => (digitIn? base c).map (n * base + ·)) 0

/--
A numeral in a base, with a sign and white space around it. Only in base ten the number of digits is
limited.
-/
def numeral (base : Nat) (t : Text) : Except Problem Int := do
  let (negative, digits) := splitSign (Text.trim t)
  match ofDigits? base digits with
  | none => throw (.notInt base t)
  | some n =>
    if base = 10 && Numeral.digitLimit < digits.length then throw (.tooManyDigits digits.length)
    return if negative then -(n : Int) else n

/--
The integer without a sign that a text stands for: binary after `0b`, of base sixteen after `0x`,
octal after `0`, of base sixty with colons, or decimal.
-/
def magnitude (t : Text) : Except Problem Int := do
  match t with
  | [] => throw .emptyNumber
  | ['0'] => return 0
  | '0' :: 'b' :: digits => numeral 2 digits
  | '0' :: 'x' :: digits => numeral 16 digits
  | '0' :: _ => numeral 8 t
  | _ =>
    if t.contains ':' then
      let parts ← (Text.splitAt ':' t).mapM (numeral 10)
      return parts.foldl (fun n part => n * 60 + part) 0
    else numeral 10 t

/--
The integer that a text stands for. Underscores are skipped.
-/
def integer (text : Text) : Except Problem Int := do
  let t := dropUnderscores text
  if t.isEmpty then throw .emptyNumber
  let (negative, unsigned) := splitSign t
  let n ← magnitude unsigned
  return if negative then -n else n

/--
The letters of a text in lower case.
-/
def lower (t : Text) : Text := t.map Char.toLower

/--
A decimal with white space around it.
-/
def decimal (t : Text) : Except Problem Binary64 :=
  let trimmed := Text.trim t
  let (negative, unsigned) := splitSign trimmed
  if unsigned = "infinity".toList then return .infinite negative
  else
    match Binary64.read? trimmed with
    | some x => return x
    | none => throw (.notFloat t)

/--
The floating point number that a text stands for. Underscores are skipped. The parts of a number of
base sixty are added from the last to the first, and each step is rounded.
-/
def floating (text : Text) : Except Problem Binary64 := do
  let t := lower (dropUnderscores text)
  if t.isEmpty then throw .emptyNumber
  let (negative, unsigned) := splitSign t
  let signed (x : Binary64) : Binary64 := if negative then x.neg else x
  if unsigned = ".inf".toList then return .infinite negative
  else if unsigned = ".nan".toList then return .nan
  else if unsigned.contains ':' then
    let parts ← (Text.splitAt ':' unsigned).mapM decimal
    return signed (sum 1 (.finite false 0 Binary64.minExponent) parts.reverse)
  else return signed (← decimal unsigned)
where
  /--
  Add the parts, of which the first one counts `base` times.
  -/
  sum (base : Nat) (total : Binary64) : List Binary64 → Binary64
    | [] => total
    | part :: parts => sum (base * 60) (total.add (part.mul (.ofNat base))) parts

/--
The truth value that a text stands for.
-/
def truth (text : Text) : Except Problem Bool :=
  let t := lower text
  if ["yes", "true", "on"].any (·.toList = t) then return true
  else if ["no", "false", "off"].any (·.toList = t) then return false
  else throw (.notBool t)

/--
The point in time that a text stands for.
-/
def pointInTime (text : Text) : Except Problem Timestamp :=
  match TimeFields.read? text with
  | none => throw .notTime
  | some fields => fields.check.mapError .time

/--
The bytes that a text of base sixty-four stands for. Other characters are skipped; padding ends the
text, and has to be complete.
-/
def base64? (text : Text) : Option (List UInt8) :=
  if text.any (0x7f < ·.toNat) then none else go 0 0 0 text
where
  /--
  The value of a digit.
  -/
  digit? (c : Char) : Option Nat :=
    if 'A' ≤ c && c ≤ 'Z' then some (c.toNat - 'A'.toNat)
    else if 'a' ≤ c && c ≤ 'z' then some (c.toNat - 'a'.toNat + 26)
    else if Text.isDigit c then some (c.toNat - '0'.toNat + 52)
    else if c = '+' then some 62
    else if c = '/' then some 63
    else none
  /--
  `place` is the number of digits since the last group of four, `left` holds the bits of them that
  are not written yet, and `pads` counts the padding.
  -/
  go (place left pads : Nat) : Text → Option (List UInt8)
    | [] => if place = 0 then some [] else none
    | c :: rest =>
      if c = '=' then
        if 2 ≤ place && 4 ≤ place + (pads + 1) then some []
        else go place left (if 2 ≤ place then pads + 1 else pads) rest
      else
        match digit? c with
        | none => go place left pads rest
        | some d =>
          match place with
          | 0 => go 1 d 0 rest
          | 1 => (go 2 (d % 16) 0 rest).map (UInt8.ofNat (left * 4 + d / 16) :: ·)
          | 2 => (go 3 (d % 4) 0 rest).map (UInt8.ofNat (left * 16 + d / 4) :: ·)
          | _ => (go 0 0 0 rest).map (UInt8.ofNat (left * 64 + d) :: ·)

end LineScript.Yaml
