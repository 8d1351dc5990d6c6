import LineScript.Binary64.Layout
import LineScript.Text.Quote
import LineScript.Value.Basic

/-!
This module contains the text of values. `Value.text?` is what a value puts into a string that is
being read, `Value.literal?` is how it is shown in a message; the two differ on texts only. Both give
`none` if an integer with too many digits is met.
-/

namespace LineScript.Value

/--
Numbers from `0.0001` on and below `10 ^ 16` are written without an exponent, and an exponent has
two digits.
-/
def floatLayout : Binary64.Layout := ⟨-4, 16, 2⟩

/--
The text of a floating point number.
-/
def floatText (x : Binary64) : Text := floatLayout.text x

/--
The parts of a range; a step of one is left out.
-/
def rangeText? (start stop step : Int) : Option Text := do
  let parts ← (if step = 1 then [start, stop] else [start, stop, step]).mapM Numeral.ofInt?
  return "range(".toList ++ Text.join ", ".toList parts ++ [')']

mutual

/--
The value as it is shown in a message.
-/
def literal? : Value → Option Text
  | .null => some "None".toList
  | .bool true => some "True".toList
  | .bool false => some "False".toList
  | .text t => some (Text.literal t)
  | .int i => Numeral.ofInt? i
  | .float x => some (floatText x)
  | .range start stop step => rangeText? start stop step
  | .list items => do
    return '[' :: Text.join ", ".toList (← literals? items) ++ [']']
  | .finish => some "END".toList

/--
The values of a list as they are shown in a message.
-/
def literals? : List Value → Option (List Text)
  | [] => some []
  | item :: items => do
    return (← literal? item) :: (← literals? items)

end

/--
The text that the value stands for.
-/
def text? : Value → Option Text
  | .text t => some t
  | value => value.literal?

@[simp]
theorem text?_text (t : Text) : (Value.text t).text? = some t := rfl

end LineScript.Value
