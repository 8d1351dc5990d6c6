import LineScript.Read.Char

/-!
This module contains the loop that strings and numbers are read with: take units one by one and let
a judge decide on the text of each, until the text ends.
-/

namespace LineScript.Read

open Eval

variable {σ : Type}

/--
What the judge says about a unit, with what was read so far.
-/
inductive Verdict (σ : Type)
  /-- Go on with the next unit. -/
  | next (s : σ)
  /-- The read ends after this unit. -/
  | keep (s : σ)
  /-- The read ends before this unit. -/
  | giveBack (s : σ)
  /-- The unit cannot be handled. -/
  | refuse (failure : Failure)

/--
Take units from the reader, until the judge ends the read or the text ends. A unit without a value
counts as the end of the text. Each unit takes at least one character, so there are at most as many
units as characters that are left, and one more try that meets the end of the text.
-/
def scan (reader : Eval Value) (judge : σ → Text → Verdict σ) (start : σ) : Eval σ := do
  go ((← cursor).remaining + 1) start
where
  /--
  Try to take at most `budget` units.
  -/
  go : (budget : Nat) → σ → Eval σ
    | 0, _ => throw .exhausted
    | budget + 1, s => do
      let place ← index
      match ← reader with
      | .null =>
        moveTo place
        return s
      | unit =>
        match judge s (← textOf unit) with
        | .next s => go budget s
        | .keep s => return s
        | .giveBack s =>
          moveTo place
          return s
        | .refuse failure => fail failure

end LineScript.Read
