import LineScript.Fault
import LineScript.Yaml.Timestamp

/-!
This module contains what can be wrong with a settings file: its form, or a scalar that its type does
not admit.
-/

namespace LineScript.Yaml

/--
Why the data in a text could not be read.
-/
inductive Problem
  /-- The text is not well formed. -/
  | malformed
  /-- An escape stands for no character. -/
  | noCharacter
  /-- The number in an escape is beyond a machine word. -/
  | hugeCharacter
  | time (problem : TimeProblem)
  | notTime
  | notBool (text : Text)
  | tooManyDigits (digits : Nat)
  | notInt (base : Nat) (text : Text)
  | notFloat (text : Text)
  | emptyNumber
  deriving DecidableEq, Repr, Inhabited

/--
The words for a problem.
-/
def Problem.message : Problem → Text
  | .malformed => "the config file is malformed".toList
  | .noCharacter => "chr() arg not in range(0x110000)".toList
  | .hugeCharacter => "Python int too large to convert to C int".toList
  | .time problem => problem.message
  | .notTime => "'NoneType' object has no attribute 'groupdict'".toList
  | .notBool text => Text.literal text
  | .tooManyDigits digits => (Failure.unreadable digits).message
  | .notInt base text =>
    "invalid literal for int() with base ".toList ++ Numeral.ofNat base ++ ": ".toList ++
      (Text.literal text).take 200
  | .notFloat text => "could not convert string to float: ".toList ++ Text.literal text
  | .emptyNumber => Failure.outOfText.message

end LineScript.Yaml
