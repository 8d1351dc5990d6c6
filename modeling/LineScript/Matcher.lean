import LineScript.Value.Equal

/-!
This module contains the conditions on a value that end the read of a string.
-/

namespace LineScript

/--
A condition on values.
-/
inductive Matcher
  /-- To equal a given value. -/
  | equals (value : Value)
  /-- To pass a test. -/
  | test (passes : Value → Bool)

namespace Matcher

/--
Does the value meet the condition?
-/
def accepts : Matcher → Value → Bool
  | .equals value, candidate => candidate.equal value
  | .test passes, candidate => passes candidate

/--
The condition to be a given text.
-/
def literal (t : Text) : Matcher := .equals (.text t)

/--
The condition that no value meets.
-/
def never : Matcher := .test fun _ => false

/--
The condition to be anything but one letter or digit.
-/
def notNameChar : Matcher :=
  .test fun
    | .text [c] => !Text.isNameChar c
    | _ => true

@[simp]
theorem accepts_literal (t s : Text) : (literal t).accepts (.text s) = (s == t) := by
  simp [literal, accepts, Value.equal]

@[simp]
theorem accepts_never (value : Value) : never.accepts value = false := rfl

end Matcher

end LineScript
