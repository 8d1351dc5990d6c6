import LineScript.Cursor
import LineScript.Event
import LineScript.Fault
import LineScript.Value.Show

/-!
This module contains the computations that a run is made of. They move a cursor, write events to a
log and may stop early; what they did until then stays done. The log is shared by all cursors of a
run, and `within` is the only way to work on another cursor.
-/

namespace LineScript

/--
The state of a run.
-/
structure State where
  cursor : Cursor
  log : Log := #[]
  /-- Is something written for the one who watches? -/
  tracing : Bool := false
  deriving Inhabited

/--
A computation on the state of a run.
-/
abbrev Eval := EStateM Stop State

namespace Eval

variable {α : Type}

/--
The cursor.
-/
def cursor : Eval Cursor := return (← get).cursor

/--
The index of the cursor.
-/
def index : Eval Int := return (← cursor).index

/--
Change the cursor.
-/
def modifyCursor (f : Cursor → Cursor) : Eval Unit :=
  modify fun s => { s with cursor := f s.cursor }

/--
Move the cursor to an index.
-/
def moveTo (index : Int) : Eval Unit := modifyCursor (·.moveTo index)

/--
Move the cursor by a number of characters.
-/
def advance (n : Int) : Eval Unit := modifyCursor (·.advance n)

/--
Give a variable a value.
-/
def assign (name : Text) (value : Value) : Eval Unit := modifyCursor (·.assign name value)

/--
Run a computation on another cursor. This cursor is as before when it is done, also if it stops
early.
-/
def within (c : Cursor) (x : Eval α) : Eval α := fun s =>
  match x { s with cursor := c } with
  | .ok a s' => .ok a { s' with cursor := s.cursor }
  | .error e s' => .error e { s' with cursor := s.cursor }

/--
Write an event to the log.
-/
def record (event : Event) : Eval Unit :=
  modify fun s => { s with log := s.log.push event }

/--
Send a message.
-/
def emit (topic : Topic) (message : Text) : Eval Unit := record (.effect ⟨topic, message⟩)

/--
Wait for a number of seconds.
-/
def pause (seconds : Binary64) : Eval Unit := record (.pause seconds)

/--
Stop with a fault; if it has no place yet, it happened at `index`, or at the cursor.
-/
def raise (fault : Fault) (index : Option Int) : Eval α := do
  let c ← cursor
  throw (.fault (fault.locate c.buffer (index.getD c.index)))

/--
Stop with a fault at `index`.
-/
def fault (cause : Cause) (index : Int) : Eval α := raise { cause } (some index)

/--
Stop with a failure.
-/
def fail (failure : Failure) : Eval α := throw (.failure failure)

/--
The value of an option, or a failure.
-/
def orFail (failure : Failure) : Option α → Eval α
  | some a => pure a
  | none => fail failure

/--
Write the words of a line for the one who watches. The line breaks off with a failure at a word that
cannot be written. Without tracing there is no line.
-/
def trace (words : List (Option Text)) : Eval Unit := do
  if (← get).tracing then
    let written := (words.takeWhile (·.isSome)).filterMap id
    let complete := written.length = words.length
    let line := Text.join [' '] ("[DBG]".toList :: written)
    record (.trace (line ++ [if complete then '\n' else ' ']))
    unless complete do fail .unprintable

/--
The text that a value stands for.
-/
def textOf (value : Value) : Eval Text := orFail .unprintable value.text?

/--
A value as it is shown in a message.
-/
def literalOf (value : Value) : Eval Text := orFail .unprintable value.literal?

end Eval

end LineScript
