import LineScript.Evaluator
import LineScript.Iterate
import LineScript.Read.Number

/-!
This module contains the standard commands. Each of them takes its arguments from the cursor, up to
the end of its statement.
-/

namespace LineScript.Standard

open Eval

/--
`range start stop step` gives a range. With one number it starts at zero and ends before that
number; the step is one unless it is given.
-/
def range (evaluator : Evaluator) : Eval Value := do
  let place ← index
  let some start ← Read.int evaluator.unit {} | fault .missingStart place
  let stop ← Read.int evaluator.unit {}
  let stepPlace ← index
  let step := (← Read.int evaluator.unit {}).getD 1
  if step = 0 then fault .zeroStep stepPlace
  match stop with
  | some stop => return .range start stop step
  | none => return .range 0 start step

/--
`say text` sends the rest of the statement.
-/
def say (evaluator : Evaluator) : Eval Value := do
  emit .stdout (← Read.string evaluator.unit { stop := some .never })
  return .null

/--
What is sent when a loop has nothing to run over: the text after it is then run by whoever comes
next.
-/
def emptyLoopWarnings : List Text :=
  ["Empty iterable, command never evaluated, offsets not applied".toList,
   "command (what comes after \"do\") might be evaluated outside of the for loop".toList]

/--
`for name in command do` runs the rest of the text for each element of the result of a command.
-/
def forEach (evaluator : Evaluator) : Eval Value := do
  let place ← index
  let name ← Read.name false
  if name.isEmpty then fault .missingLoopVariable place
  Read.spaces
  let place ← index
  let specifier ← Read.string evaluator.unit {}
  unless specifier = ['i', 'n'] do fault (.unexpectedSpecifier specifier) place
  let place ← index
  let value ← evaluator.command
  let some elements := value.elements?
    | fault (.notIterable (← literalOf value)) place
  let place ← index
  let action ← Read.string evaluator.unit {}
  unless action = ['d', 'o'] do fault (.unexpectedAction action) place
  let offsets ← iterate evaluator.commands name elements
  if offsets.isEmpty then
    emptyLoopWarnings.forM (emit .stderr)
  return .null

/--
How the text of a block is read: up to the closing brace, with semicolons.
-/
def blockOptions : Read.StringOptions :=
  { endAtSemicolon := false, stop := some (.literal ['}']) }

/--
`{ text }` runs all commands of a text of its own.
-/
def block (evaluator : Evaluator) : Eval Value := do
  let text ← Read.string evaluator.unit blockOptions
  within ((← cursor).spawn text) evaluator.commands
  return .null

/--
`sleep milliseconds` waits. A negative duration counts as none.
-/
def sleep (evaluator : Evaluator) : Eval Value := do
  let place ← index
  let some duration ← Read.int evaluator.unit {} | fault .missingDuration place
  pause (← orFail .overflow (Binary64.ofRatio duration.toNat 1000))
  return .null

/--
`return string` gives a string.
-/
def giveBack (evaluator : Evaluator) : Eval Value :=
  return .text (← Read.string evaluator.unit {})

/--
A command with the name that it is known by.
-/
def member (name : Text) (body : Evaluator → Eval Value) : Member Command :=
  { handler := ⟨name, body⟩, mark := some (.name name) }

/--
The standard commands.
-/
def group : Table (Member Command) :=
  .ofList
    [("block".toList, member ['{'] block), ("for".toList, member "for".toList forEach),
     ("range".toList, member "range".toList range), ("return".toList, member "return".toList giveBack),
     ("say".toList, member "say".toList say), ("sleep".toList, member "sleep".toList sleep)]

/--
The registry of the standard commands.
-/
def registry : Registry Command := (Registry.bind .empty group).1

end LineScript.Standard
