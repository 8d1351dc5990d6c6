import LineScript.Cursor
import LineScript.Event
import LineScript.Fault

/-!
This module contains the report on a run: its value, its effects, and the problem that ended it, if
there was one.
-/

namespace LineScript

/--
What ended a run before its time. `buffer` is the text that was run and `index` the place in it.
-/
structure Problem where
  message : Text
  index : Option Int := none
  buffer : Option Text := none
  deriving DecidableEq, Repr, Inhabited

/--
The problem in words, below the text in question if there is one.
-/
def Problem.format (problem : Problem) : Text :=
  let message := if problem.message.isEmpty then "Unknown error".toList else problem.message
  match problem.buffer with
  | none => message
  | some buffer => render buffer problem.index message

/--
The text at a cursor with a caret under a place in it, the cursor's own by default, and a message.
-/
def Cursor.explain (c : Cursor) (index : Option Int) (message : Text) : Text :=
  render c.buffer (index.getD c.index) message

/--
A fault below the text in question. If it has no place yet, it happened at this cursor.
-/
def Cursor.explainFault (c : Cursor) (index : Option Int) (fault : Fault) : Text :=
  let located := fault.locate c.buffer (index.getD c.index)
  render (located.buffer.getD c.buffer) located.index located.text

/--
The report on a run.
-/
structure Report where
  value : Value := .null
  problem : Option Problem := none
  /-- The messages of the run, and after them the one about the problem. -/
  effects : List Effect := []
  deriving Inhabited

namespace Report

/--
Did the run come to its end?
-/
def isSuccess (report : Report) : Bool := report.problem.isNone

/--
The problem in words; nothing if there is none.
-/
def format (report : Report) : Text :=
  match report.problem with
  | none => []
  | some problem => problem.format

/--
The report on a run that came to its end.
-/
def success (effects : List Effect) : Report := { effects }

/--
The report on a run that a problem ended. The problem is also the last of its effects.
-/
def failure (effects : List Effect) (problem : Problem) : Report :=
  { problem := some problem, effects := effects ++ [⟨.stderr, problem.format⟩] }

end Report

end LineScript
