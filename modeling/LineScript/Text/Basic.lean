/-!
This module contains the type of text: a list of code points. Every index, length and cut of this
library counts code points.
-/

namespace LineScript

/--
Text is the list of its code points.
-/
abbrev Text := List Char

namespace Text

/--
The code points of a string.
-/
def ofString (s : String) : Text := s.toList

/--
The string with the given code points.
-/
def toString (t : Text) : String := String.ofList t

/--
The parts one after another, with `separator` between two neighbours.
-/
def join (separator : Text) (parts : List Text) : Text :=
  separator.intercalate parts

/--
Does the text start with `token`?
-/
def startsWith (t token : Text) : Bool := token.isPrefixOf t

/--
The pieces of a text between the occurrences of a character; there is always at least one.
-/
def splitAt (separator : Char) : Text → List Text
  | [] => [[]]
  | c :: rest =>
    if c = separator then [] :: splitAt separator rest
    else
      match splitAt separator rest with
      | [] => [[c]]
      | piece :: pieces => (c :: piece) :: pieces

/--
The last `width` digits of a number in base sixteen, in lower case.
-/
def hex : (width : Nat) → Nat → Text
  | 0, _ => []
  | width + 1, n => hex width (n / 16) ++ [Nat.digitChar (n % 16)]

@[simp]
theorem hex_length (width n : Nat) : (hex width n).length = width := by
  induction width generalizing n with
  | zero => rfl
  | succ width ih => simp [hex, ih]

/--
An ASCII decimal digit.
-/
def isDigit (c : Char) : Bool := '0' ≤ c && c ≤ '9'

/--
An ASCII letter or digit: the characters that names are made of.
-/
def isNameChar (c : Char) : Bool :=
  isDigit c || ('a' ≤ c && c ≤ 'z') || ('A' ≤ c && c ≤ 'Z')

end Text

end LineScript
