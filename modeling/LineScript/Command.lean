import LineScript.Eval
import LineScript.Registry

/-!
This module contains commands. What a command does may depend on units and on other commands, which
an `Evaluator` stands for, so that commands need not know how they are run.
-/

namespace LineScript

/--
The ways to go on from the cursor.
-/
structure Evaluator where
  /-- Take a unit: a character, the value of a variable or the result of a substitution. -/
  unit : Eval Value
  /-- Run the next command and give its result. -/
  command : Eval Value
  /-- Run all commands up to the end. -/
  commands : Eval Unit

/--
The evaluator that never goes on.
-/
def Evaluator.exhausted : Evaluator where
  unit := throw .exhausted
  command := throw .exhausted
  commands := throw .exhausted

/--
A command. It is started with the cursor after its name, and takes its arguments from there.
-/
structure Command where
  label : Text
  body : Evaluator → Eval Value

instance : Inhabited Command := ⟨⟨[], fun _ => return .null⟩⟩

end LineScript
