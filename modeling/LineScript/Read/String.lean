import LineScript.Matcher
import LineScript.Read.Scan

/-!
This module contains the read of strings. A string ends at a unit that meets its stop condition, or
at a semicolon; a backslash takes the next unit as it is.
-/

namespace LineScript.Read

open Eval

/--
How a string is read.
-/
structure StringOptions extends Options where
  /-- The end of the string: by default a quote if it starts with one, otherwise a space. -/
  stop : Option Matcher := none
  /-- Is the unit that ends the string taken? By default it is, unless a space ends the string. -/
  keepStop : Option Bool := none

/--
A string that is being read.
-/
structure Draft where
  /-- The characters so far, the last one first. -/
  reversed : Text := []
  /-- Was the last unit a backslash that escapes the next one? -/
  escaping : Bool := false
  deriving DecidableEq, Repr, Inhabited

namespace Draft

/--
Add a text to the string.
-/
def append (s : Draft) (t : Text) : Draft := { reversed := t.reverse ++ s.reversed }

/--
The string. A backslash that has nothing to escape is lost.
-/
def text (s : Draft) : Text := s.reversed.reverse

@[simp]
theorem text_append (s : Draft) (t : Text) : (s.append t).text = s.text ++ t := by
  simp [append, text]

end Draft

/--
The judge on the units of a string.
-/
def judgeString (endAtSemicolon keepStop : Bool) (stop : Matcher) (s : Draft) (t : Text) :
    Verdict Draft :=
  if s.escaping then .next (s.append t)
  else if endAtSemicolon && t = [';'] then .keep s
  else if stop.accepts (.text t) then
    if keepStop then .keep s else .giveBack s
  else if t = ['\\'] then .next { s with escaping := true }
  else .next (s.append t)

/--
The end of the string. Without a given one, a quote at the cursor is taken and a quote ends it.
-/
def StringOptions.matcher (options : StringOptions) : Eval Matcher := do
  match options.stop with
  | some stop => return stop
  | none => return .literal (if ← token ['"'] then ['"'] else [' '])

/--
Read a string.
-/
def string (reader : Eval Value) (options : StringOptions) : Eval Text := do
  options.spaces
  let stop ← options.matcher
  let keepStop := options.keepStop.getD !stop.accepts (.text [' '])
  let s ← scan reader (judgeString options.endAtSemicolon keepStop stop) {}
  options.spaces
  return s.text

/--
Read a name: letters and digits, which are not resolved.
-/
def name (skipSpaces : Bool) : Eval Text :=
  string rawUnit
    { skipSpaces, endAtSemicolon := false, stop := some .notNameChar, keepStop := some false }

end LineScript.Read
