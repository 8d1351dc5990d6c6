import LineScript.Text.Basic

/-!
This module contains the types of scalars that are written without quotes. The type is decided by the
spelling alone.
-/

namespace LineScript.Yaml

/--
The types of data.
-/
inductive Tag
  | null
  | bool
  | int
  | float
  | timestamp
  | str
  | binary
  | list
  | map
  | set
  /-- A list of maps with one entry each, whose order matters. -/
  | orderedMap
  | pairs
  /-- A key whose value is merged into the map around it. -/
  | merge
  /-- A key for the value that a map stands for. -/
  | default
  /-- A type that is not known here. -/
  | unknown
  deriving DecidableEq, Repr, Inhabited

namespace Tag

/--
The start of the names of all known types.
-/
def stem : Text := "tag:yaml.org,2002:".toList

/--
The type of a name.
-/
def ofText (t : Text) : Tag :=
  (known.find? fun (name, _) => stem ++ name.toList = t).map (·.2) |>.getD .unknown
where
  /--
  The names of the known types.
  -/
  known : List (String × Tag) :=
    [("null", .null), ("bool", .bool), ("int", .int), ("float", .float),
     ("timestamp", .timestamp), ("str", .str), ("binary", .binary), ("seq", .list), ("map", .map),
     ("set", .set), ("omap", .orderedMap), ("pairs", .pairs), ("merge", .merge),
     ("value", .default)]

end Tag

/--
Spellings of scalars of one type.
-/
abbrev Spelling := Text → Bool

namespace Spelling

/--
One of some words.
-/
def oneOf (words : List String) : Spelling := fun t => words.any (·.toList = t)

/--
The spellings of no value.
-/
def null : Spelling := oneOf ["", "~", "null", "Null", "NULL"]

/--
The spellings of truth values.
-/
def bool : Spelling :=
  oneOf ["yes", "Yes", "YES", "no", "No", "NO", "true", "True", "TRUE", "false", "False", "FALSE",
    "on", "On", "ON", "off", "Off", "OFF"]

/--
A digit or an underscore, which may stand between digits.
-/
def isSpacedDigit (c : Char) : Bool := Text.isDigit c || c = '_'

/--
A text without a sign at its start.
-/
def unsigned : Text → Text
  | '-' :: t => t
  | '+' :: t => t
  | t => t

/--
A text that starts with a character that satisfies `first`, and of which the others satisfy `rest`.
-/
def starting (first rest : Char → Bool) : Spelling
  | [] => false
  | c :: t => first c && t.all rest

/--
One digit, or two of which the first is below six.
-/
def belowSixty : Spelling
  | [c] => Text.isDigit c
  | [c, d] => '0' ≤ c && c ≤ '5' && Text.isDigit d
  | _ => false

/--
Two or more parts between colons, of which all but the first are below sixty.
-/
def sexagesimal (first : Spelling) : Spelling := fun t =>
  match Text.splitAt ':' t with
  | head :: part :: parts => first head && (part :: parts).all belowSixty
  | _ => false

/--
One or more characters that satisfy `p`.
-/
def some (p : Char → Bool) : Spelling := fun t => !t.isEmpty && t.all p

/--
An integer: binary, octal, decimal, of base sixteen or of base sixty, with underscores.
-/
def int : Spelling := fun t =>
  match unsigned t with
  | '0' :: 'b' :: digits => some (fun c => c = '0' || c = '1' || c = '_') digits
  | '0' :: 'x' :: digits =>
    some (fun c => isSpacedDigit c || ('a' ≤ c && c ≤ 'f') || ('A' ≤ c && c ≤ 'F')) digits
  | '0' :: digits => digits.all fun c => ('0' ≤ c && c ≤ '7') || c = '_'
  | digits => decimal digits || sexagesimal decimal digits
where
  /--
  Digits and underscores of which the first is a digit that is not zero.
  -/
  decimal : Spelling := starting (fun c => Text.isDigit c && c ≠ '0') isSpacedDigit

/--
The end of a number after its point: digits, and an exponent with a sign.
-/
def afterPoint : Spelling := fun t =>
  match t.dropWhile isSpacedDigit with
  | [] => true
  | mark :: sign :: digits =>
    (mark = 'e' || mark = 'E') && (sign = '-' || sign = '+') && some Text.isDigit digits
  | _ => false

/--
A floating point number: with a point after digits, or in front of a digit if there is no sign; of
base sixty with a point; infinite; or no number.
-/
def float : Spelling := fun t => pointed t || sexagesimalPointed t || special t
where
  /--
  Digits and underscores of which the first is a digit.
  -/
  digits : Spelling := starting Text.isDigit isSpacedDigit
  /--
  A number of base ten.
  -/
  pointed (t : Text) : Bool :=
    match t, (unsigned t).span (· ≠ '.') with
    | '.' :: c :: rest, _ => Text.isDigit c && afterPoint rest
    | _, (whole, '.' :: rest) => digits whole && afterPoint rest
    | _, _ => false
  /--
  A number of base sixty.
  -/
  sexagesimalPointed (t : Text) : Bool :=
    match (unsigned t).span (· ≠ '.') with
    | (whole, '.' :: rest) => sexagesimal digits whole && rest.all isSpacedDigit
    | _ => false
  /--
  Infinite, or no number.
  -/
  special (t : Text) : Bool :=
    oneOf [".inf", ".Inf", ".INF"] (unsigned t) || oneOf [".nan", ".NaN", ".NAN"] t

end Spelling

end LineScript.Yaml
