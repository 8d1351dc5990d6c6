import LineScript.Command
import LineScript.Read.String

/-!
This module contains the read of units: a character, the value of a variable, or the result of a
command that is substituted. Every string and number is read by units, so variables and
substitutions may stand in all of them.
-/

namespace LineScript.Read

open Eval

/--
How the text of a substitution is read: up to the closing brace, with spaces and semicolons.
-/
def substitutionOptions : StringOptions :=
  { skipSpaces := false, endAtSemicolon := false, stop := some (.literal ['}']),
    keepStop := some true }

/--
The result of a substitution, with the cursor after its opening brace: the text up to the closing
one is run as a command of its own. A command without a result stands for the empty text.
-/
def substitution (evaluator : Evaluator) : Eval Value := do
  let text ← string evaluator.unit substitutionOptions
  trace [some "SUBST".toList, some (Text.literal text)]
  match ← within ((← cursor).spawn text) evaluator.command with
  | .finish | .null => return .text []
  | value => return value

/--
The value of the variable whose name starts at the cursor.
-/
def variableValue : Eval Value := do
  let start ← index
  let name ← name false
  match (← cursor).scope.find? name with
  | some value => return value
  | none => fault (.unknownVariable name) start

/--
Take a unit. A dollar sign in front of a name stands for the value of a variable, one in front of a
brace for a substitution, and any other for itself. At the end of the text there is no value.
-/
def unit (evaluator : Evaluator) : Eval Value := do
  match ← char with
  | some '$' =>
    match ← peek with
    | some c =>
      if c = '{' then
        advance 1
        substitution evaluator
      else if Text.isNameChar c then variableValue
      else return .text ['$']
    | none => return .text ['$']
  | c => return .ofChar? c

end LineScript.Read
