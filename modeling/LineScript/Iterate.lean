import LineScript.Command
import LineScript.Value.Elements

/-!
This module contains loops. The rest of the text is run once per element, each time from the same
place and with variables of its own, and each run has to end at the same place.
-/

namespace LineScript

open Eval

/--
Run the rest of the text with an element as the value of a variable, and give the number of
characters that this took.
-/
def runElement (commands : Eval Unit) (name : Text) (element : Value) : Eval Int := do
  let c ← cursor
  let offset ← within (c.assign name element) do
    commands
    return (← index) - c.index
  let shown ← literalOf element
  trace
    [some "ITER".toList, some name, some ['='], some shown, some "offset".toList, c.numeral? offset]
  return offset

/--
Stop because the run of an element took `offset` characters, and that of the first one `first`. This
is a fault at the cursor, unless the numbers cannot be written.
-/
def failUneven {α : Type} (first offset : Int) (iteration : Nat) : Eval α := do
  let c ← cursor
  for i in [first, offset, offset - first] do
    discard (orFail .unprintable (c.numeral? i))
  raise { cause := .unevenIteration first offset iteration } none

/--
Run the rest of the text for each element. All runs have to take the same number of characters, by
which the cursor moves when all are done. The result is the number of characters of each run.
-/
def iterate (commands : Eval Unit) (name : Text) (elements : Elements) : Eval (List Int) := do
  let offsets ← go elements.size none []
  if let some offset := offsets.head? then advance offset
  return offsets
where
  /--
  Run the last `left` elements. The first run took `first`, and the runs so far took the numbers in
  `done`, the last one first.
  -/
  go : (left : Nat) → (first : Option Int) → (done : List Int) → Eval (List Int)
    | 0, _, done => return done.reverse
    | left + 1, first, done => do
      let iteration := elements.size - (left + 1)
      let offset ← runElement commands name (elements.get iteration)
      let first := first.getD offset
      if offset ≠ first then failUneven first offset iteration
      go left (some first) (offset :: done)

end LineScript
