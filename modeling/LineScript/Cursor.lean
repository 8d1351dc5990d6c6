import LineScript.Table
import LineScript.Text.Quote
import LineScript.Numeral
import LineScript.Value.Basic

/-!
This module contains cursors: a text, an index into it and the variables in scope. The index may lie
anywhere. One that is negative counts from the end of the text, and at or after the end there is no
character.
-/

namespace LineScript

/--
A place in a text, with the variables in scope there.
-/
structure Cursor where
  buffer : Text
  index : Int := 0
  /-- The variables. -/
  scope : Table Value := .empty
  deriving Inhabited

namespace Cursor

/--
The number of characters before the one that the index denotes; `none` if it lies before the start
of the text.
-/
def position? (c : Cursor) : Option Nat :=
  match c.index with
  | .ofNat n => some n
  | .negSucc n => if n < c.buffer.length then some (c.buffer.length - (n + 1)) else none

/--
An index below this one is out of reach for any text.
-/
def leastIndex : Int := -0x8000000000000000

/--
The numeral of an index or of a distance. Inside the text it can always be written, and elsewhere
unless it has too many digits.
-/
def numeral? (c : Cursor) (i : Int) : Option Text :=
  if i.natAbs ≤ c.buffer.length then some (Numeral.ofInt i) else Numeral.ofInt? i

/--
The number of characters from the index to the end of the text.
-/
def remaining (c : Cursor) : Nat := (c.buffer.length - c.index).toNat

/--
Does the text go on with `token` at the index? An index before the start counts as the start; after
the end nothing goes on.
-/
def atToken (c : Cursor) (token : Text) : Bool :=
  let start := (if c.index < 0 then c.index + c.buffer.length else c.index).toNat
  start ≤ c.buffer.length && Text.startsWith (c.buffer.drop start) token

/--
The cursor at another index.
-/
def moveTo (c : Cursor) (index : Int) : Cursor := { c with index }

/--
The cursor `n` characters further on.
-/
def advance (c : Cursor) (n : Int) : Cursor := { c with index := c.index + n }

/--
The cursor with a new value for a variable.
-/
def assign (c : Cursor) (name : Text) (value : Value) : Cursor :=
  { c with scope := c.scope.insert name value }

/--
A cursor at the start of another text, with the same variables.
-/
def spawn (c : Cursor) (buffer : Text) : Cursor := { buffer, scope := c.scope }

/--
The cursor after the variables of another one were written over its own.
-/
def receive (c : Cursor) (source : Table Value) : Cursor :=
  { c with scope := source.overlay c.scope }

/--
A description of the cursor.
-/
def describe? (c : Cursor) : Option Text :=
  (c.numeral? c.index).map fun index =>
    "<Context index=".toList ++ index ++ " buffer=".toList ++ Text.literal c.buffer ++ ['>']

end Cursor

end LineScript
