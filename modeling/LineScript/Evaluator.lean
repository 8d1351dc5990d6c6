import LineScript.Read.Unit

/-!
This module contains the evaluation of commands. Commands are found by name in a registry; what they
need to go on is the evaluator of one level below, so that the level bounds how deep a run can go.
-/

namespace LineScript

open Eval

/--
Read the name of the next command and find the command. There is none if the name is empty.
-/
def findCommand (registry : Registry Command) (unit : Eval Value) : Eval (Option Command) := do
  Read.spaces
  let start ← index
  let name ← Read.string unit {}
  if name.isEmpty then return none
  match registry.lookup name with
  | none => fault (.unknownCommand name) start
  | some command =>
    trace [some "CALL".toList, some name, some "at".toList, (← cursor).numeral? start]
    return some command

namespace Evaluator

/--
The evaluator one level above a given one. What is substituted, what a command runs and what follows
a command belongs to the level below.
-/
def above (registry : Registry Command) (inner : Evaluator) : Evaluator :=
  let unit := Read.unit inner
  let command := do
    match ← findCommand registry unit with
    | none => return .finish
    | some command => command.body { inner with unit }
  let commands := do
    unless (← command).isFinish do inner.commands
  { unit, command, commands }

/--
The evaluator of a level. At level zero nothing goes on.
-/
def ofLevel (registry : Registry Command) : (level : Nat) → Evaluator
  | 0 => exhausted
  | level + 1 =>
    above registry
      { unit := fun s => (ofLevel registry level).unit s
        command := fun s => (ofLevel registry level).command s
        commands := fun s => (ofLevel registry level).commands s }

end Evaluator

end LineScript
