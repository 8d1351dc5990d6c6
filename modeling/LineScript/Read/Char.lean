import LineScript.Eval

/-!
This module contains the reads that look at characters only. None of them resolves a variable or
runs a command.
-/

namespace LineScript.Read

open Eval

/--
The character at the cursor; none at the end of the text.
-/
def peek : Eval (Option Char) := do
  let c ← cursor
  match c.position? with
  | some n => return c.buffer[n]?
  | none => fail (if c.index < Cursor.leastIndex then .outOfReach else .outOfText)

/--
Take the character at the cursor. The cursor moves on also at the end of the text.
-/
def char : Eval (Option Char) := do
  let c ← peek
  advance 1
  return c

/--
Skip the spaces at the cursor.
-/
def spaces : Eval Unit := do
  go (← cursor).remaining
where
  /--
  Skip at most `budget` spaces.
  -/
  go : (budget : Nat) → Eval Unit
    | 0 => return
    | budget + 1 => do
      if (← peek) = some ' ' then
        advance 1
        go budget

/--
Does the text go on with `token`?
-/
def atToken (token : Text) : Eval Bool := return (← cursor).atToken token

/--
Take `token` if the text goes on with it.
-/
def token (token : Text) : Eval Bool := do
  if ← atToken token then
    advance token.length
    return true
  else
    return false

/--
Take the character at the cursor as a unit that is not resolved.
-/
def rawUnit : Eval Value := return .ofChar? (← char)

/--
What the reads of strings and numbers have in common.
-/
structure Options where
  /-- Are the spaces before and after skipped? -/
  skipSpaces : Bool := true
  /-- Does a semicolon end the read? It is then taken. -/
  endAtSemicolon : Bool := true
  deriving Repr, Inhabited

/--
Skip the spaces at the cursor if the options say so.
-/
def Options.spaces (options : Options) : Eval Unit := do
  if options.skipSpaces then Read.spaces

end LineScript.Read
