import LineScript.Numeral

/-!
This module contains points in time: a day, or a time of a day with an offset from universal time.
-/

namespace LineScript.Yaml

/--
A point in time whose parts were not checked.
-/
structure TimeFields where
  year : Nat
  month : Nat
  day : Nat
  /-- Hour, minute, second and microsecond. -/
  clock : Option (Nat × Nat × Nat × Nat) := none
  /-- The offset from universal time in minutes. -/
  offset : Option Int := none
  deriving DecidableEq, Repr, Inhabited

/--
Why parts do not make a point in time.
-/
inductive TimeProblem
  | year (n : Nat)
  | month
  | day
  | hour
  | minute
  | second
  /-- The offset, in minutes, is a day or more. -/
  | offset (minutes : Int)
  deriving DecidableEq, Repr, Inhabited

/--
A point in time.
-/
structure Timestamp where
  fields : TimeFields
  deriving DecidableEq, Repr, Inhabited

/--
Is there a 29th of February in a year?
-/
def isLeapYear (year : Nat) : Bool :=
  (year % 4 = 0 && year % 100 ≠ 0) || year % 400 = 0

/--
The number of days of a month.
-/
def daysInMonth (year month : Nat) : Nat :=
  if month = 2 then if isLeapYear year then 29 else 28
  else if [4, 6, 9, 11].contains month then 30
  else 31

namespace TimeFields

/--
One or two digits, and the text after them.
-/
def shortNumber? (t : Text) : Option (Nat × Text) :=
  match t with
  | c :: rest =>
    if !Text.isDigit c then none
    else
      match rest with
      | d :: rest' =>
        if Text.isDigit d then some (Numeral.toNat [c, d], rest')
        else some (Numeral.toNat [c], rest)
      | [] => some (Numeral.toNat [c], [])
  | [] => none

/--
A number of digits, and the text after them.
-/
def fixedNumber? (width : Nat) (t : Text) : Option (Nat × Text) :=
  let digits := t.take width
  if digits.length = width && digits.all Text.isDigit then
    some (Numeral.toNat digits, t.drop width)
  else none

/--
The text after a character that has to be next.
-/
def after? (c : Char) : Text → Option Text
  | d :: t => if c = d then some t else none
  | [] => none

/--
The digits of a fraction of a second as microseconds.
-/
def microseconds (digits : Text) : Nat :=
  let kept := digits.take 6
  Numeral.toNat (kept ++ List.replicate (6 - kept.length) '0')

/--
A fraction of a second after its point, if there is one, and the text after it.
-/
def fraction : Text → Nat × Text
  | '.' :: t =>
    let (digits, rest) := t.span Text.isDigit
    (microseconds digits, rest)
  | t => (0, t)

/--
White space inside a point in time.
-/
def isSpace (c : Char) : Bool := c = ' ' || c = '\t'

/--
An offset up to the end of the text, in minutes. White space may stand in front of it.
-/
def offset? (t : Text) : Option (Option Int) :=
  if t.isEmpty then some none
  else
    match t.dropWhile isSpace with
    | ['Z'] => some (some 0)
    | '+' :: rest => (duration? rest).map fun n => some (n : Int)
    | '-' :: rest => (duration? rest).map fun n => some (-(n : Int))
    | _ => none
where
  /--
  Hours, and minutes after a colon.
  -/
  duration? (t : Text) : Option Nat := do
    let (hours, rest) ← shortNumber? t
    if rest.isEmpty then return hours * 60
    let (minutes, rest) ← fixedNumber? 2 (← after? ':' rest)
    if rest.isEmpty then return hours * 60 + minutes else none

/--
The time of a day after a mark or white space, up to the end of the text.
-/
def clock? (t : Text) : Option ((Nat × Nat × Nat × Nat) × Option Int) := do
  let rest ←
    match t with
    | 'T' :: rest => some rest
    | 't' :: rest => some rest
    | c :: rest => if isSpace c then some (rest.dropWhile isSpace) else none
    | [] => none
  let (hour, rest) ← shortNumber? rest
  let (minute, rest) ← fixedNumber? 2 (← after? ':' rest)
  let (second, rest) ← fixedNumber? 2 (← after? ':' rest)
  let (micros, rest) := fraction rest
  return ((hour, minute, second, micros), ← offset? rest)

/--
The parts of a point in time: year, month and day, and the time of the day.
-/
def read? (t : Text) : Option TimeFields := do
  let (year, rest) ← fixedNumber? 4 t
  let (month, rest) ← shortNumber? (← after? '-' rest)
  let (day, rest) ← shortNumber? (← after? '-' rest)
  if rest.isEmpty then return { year, month, day }
  let (clock, offset) ← clock? rest
  return { year, month, day, clock := some clock, offset }

/--
Does a scalar without quotes stand for a point in time? A day alone has two digits for the month and
two for the day.
-/
def isSpelling (t : Text) : Bool :=
  match read? t with
  | none => false
  | some fields => fields.clock.isSome || t.length = 10

/--
Check the parts of a point in time. The offset is checked first.
-/
def check (f : TimeFields) : Except TimeProblem Timestamp := do
  if let some minutes := f.offset then
    if 24 * 60 ≤ minutes.natAbs then throw (.offset minutes)
  if f.year = 0 then throw (.year f.year)
  if f.month = 0 || 12 < f.month then throw .month
  if f.day = 0 || daysInMonth f.year f.month < f.day then throw .day
  if let some (hour, minute, second, _) := f.clock then
    if 23 < hour then throw .hour
    if 59 < minute then throw .minute
    if 59 < second then throw .second
  return ⟨f⟩

end TimeFields

/--
A number with zeros in front of it.
-/
def padded (width n : Nat) : Text :=
  let digits := Numeral.ofNat n
  List.replicate (width - digits.length) '0' ++ digits

/--
A number of minutes as it is shown in a message: whole days, which may be negative, and seconds.
-/
def durationLiteral (minutes : Int) : Text :=
  let days := minutes.fdiv (24 * 60)
  let seconds := minutes.fmod (24 * 60) * 60
  let parts :=
    (if days = 0 then [] else ["days=".toList ++ Numeral.ofInt days]) ++
      (if seconds = 0 then [] else ["seconds=".toList ++ Numeral.ofInt seconds])
  "datetime.timedelta(".toList ++
    (if parts.isEmpty then ['0'] else Text.join ", ".toList parts) ++ [')']

/--
The words for a problem with a point in time.
-/
def TimeProblem.message : TimeProblem → Text
  | .year n => "year ".toList ++ Numeral.ofNat n ++ " is out of range".toList
  | .month => "month must be in 1..12".toList
  | .day => "day is out of range for month".toList
  | .hour => "hour must be in 0..23".toList
  | .minute => "minute must be in 0..59".toList
  | .second => "second must be in 0..59".toList
  | .offset minutes =>
    "offset must be a timedelta strictly between -timedelta(hours=24) and timedelta(hours=24), not "
      |>.toList |> (· ++ durationLiteral minutes ++ ['.'])

namespace Timestamp

/--
The name of the type, for messages.
-/
def typeName (t : Timestamp) : Text :=
  if t.fields.clock.isSome then "datetime".toList else "date".toList

/--
The full name of the type, for messages.
-/
def fullTypeName (t : Timestamp) : Text := "datetime.".toList ++ t.typeName

/--
The offset from universal time in hours and minutes.
-/
def offsetText (minutes : Int) : Text :=
  (if minutes < 0 then '-' else '+') ::
    padded 2 (minutes.natAbs / 60) ++ ':' :: padded 2 (minutes.natAbs % 60)

/--
The point in time as text.
-/
def text (t : Timestamp) : Text :=
  let f := t.fields
  let day := padded 4 f.year ++ '-' :: padded 2 f.month ++ '-' :: padded 2 f.day
  match f.clock with
  | none => day
  | some (hour, minute, second, micros) =>
    day ++ ' ' :: padded 2 hour ++ ':' :: padded 2 minute ++ ':' :: padded 2 second ++
      (if micros = 0 then [] else '.' :: padded 6 micros) ++
      ((f.offset.map offsetText).getD [])

/--
The point in time as it is shown in a message. A second of zero is left out if nothing follows.
-/
def literal (t : Timestamp) : Text :=
  let f := t.fields
  let numbers (ns : List Nat) : List Text := ns.map Numeral.ofNat
  match f.clock with
  | none =>
    "datetime.date(".toList ++ Text.join ", ".toList (numbers [f.year, f.month, f.day]) ++ [')']
  | some (hour, minute, second, micros) =>
    let seconds :=
      if micros ≠ 0 then [second, micros] else if second ≠ 0 then [second] else []
    let zone :=
      match f.offset with
      | none => []
      | some 0 => ["tzinfo=datetime.timezone.utc".toList]
      | some minutes =>
        ["tzinfo=datetime.timezone(".toList ++ durationLiteral minutes ++ [')']]
    "datetime.datetime(".toList ++
      Text.join ", ".toList
        (numbers ([f.year, f.month, f.day, hour, minute] ++ seconds) ++ zone) ++ [')']

end Timestamp

end LineScript.Yaml
