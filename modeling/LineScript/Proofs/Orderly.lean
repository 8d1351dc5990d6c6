import LineScript.Proofs.Appends
import LineScript.Proofs.Bounds

/-!
This module contains what a loop asks of the commands that it runs: they add to the log without
looking at it, and leave it to the session whether someone watches. The standard commands do so, and
so do a few more, which tell the place of the cursor, move it, assign variables or fail, and with
which a run can be probed.
-/

namespace LineScript

namespace Eval

variable {α β : Type}

/--
Events that come before those of the log make no difference to the computation, and it does not change
whether someone watches.
-/
structure Orderly (x : Eval α) : Prop where
  appends : Appends x
  tracing_eq : ∀ s : State, (final (x s)).tracing = s.tracing

theorem orderly_record (event : Event) : Orderly (record event) := ⟨appends_record event, fun _ => rfl⟩

theorem orderly_assign (name : Text) (value : Value) : Orderly (assign name value) :=
  ⟨fun _ _ => rfl, fun _ => rfl⟩

theorem orderly_trace (words : List (Option Text)) : Orderly (trace words) := by
  refine ⟨appends_trace words, fun s => ?_⟩
  apply final_of_yields (Q := fun s' => s'.tracing = s.tracing)
  apply yields_trace
  . intro log
    rfl
  . intro log
    rfl

theorem orderly_within {x : Eval α} (c : Cursor) (hx : Orderly x) : Orderly (within c x) := by
  refine ⟨appends_within c hx.appends, fun s => ?_⟩
  rw [final_within]
  exact hx.tracing_eq { s with cursor := c }

theorem Orderly.bind_of_ok {x : Eval α} {f : α → Eval β} (hx : Orderly x)
    (hf : ∀ a s s', x s = .ok a s' → Orderly (f a)) : Orderly (x >>= f) := by
  constructor
  . apply hx.appends.bind_of_ok
    intro a s s' hok
    exact (hf a s s' hok).appends
  . intro s
    apply final_bind (Q := fun s' => s'.tracing = s.tracing) (hx.tracing_eq s)
    intro a s' hok hs'
    exact ((hf a s s' hok).tracing_eq s').trans hs'

theorem inherited_orderly : Inherited Orderly where
  pure := fun _ => ⟨fun _ _ => rfl, fun _ => rfl⟩
  throw := fun _ => ⟨fun _ _ => rfl, fun _ => rfl⟩
  cursor := ⟨fun _ _ => rfl, fun _ => rfl⟩
  moveTo := fun _ => ⟨fun _ _ => rfl, fun _ => rfl⟩
  advance := fun _ => ⟨fun _ _ => rfl, fun _ => rfl⟩
  record := fun event _ => orderly_record event
  trace := fun _ _ => orderly_trace _
  bind_of_ok := Orderly.bind_of_ok

end Eval

open Eval

theorem Standard.orderly_registry : registry.Has Orderly :=
  inherited_orderly.standard orderly_within fun _ _ => orderly_trace _

theorem Evaluator.orderly_ofLevel {registry : Registry Command} (hregistry : registry.Has Orderly)
    (level : Nat) : (ofLevel registry level).Has Orderly :=
  inherited_orderly.ofLevel orderly_within (fun _ _ _ _ _ => orderly_trace _) hregistry level

theorem Registry.lookup_insertAll {registry : Registry Command} {writes : List (Text × Command)}
    {name : Text} {command : Command}
    (h : Registry.lookup (registry.insertAll writes) name = some command) :
    command ∈ writes.map (·.2) ∨ registry.lookup name = some command := by
  unfold lookup at h
  rw [Table.find?_insertAll, Option.or_eq_some_iff] at h
  obtain hwritten | ⟨-, hkept⟩ := h
  . have hmem : (name, command) ∈ writes.reverse := Table.mem_of_lookup hwritten
    exact Or.inl (List.mem_map_of_mem (List.mem_reverse.mp hmem))
  . exact Or.inr hkept

namespace Probe

/--
Tell where the cursor is, and give a result.
-/
def call (result : Value) (_ : Evaluator) : Eval Value := do
  emit (.channel "calls".toList) (Numeral.ofInt (← index))
  return result

/--
`set name string` assigns a variable.
-/
def set (evaluator : Evaluator) : Eval Value := do
  let name ← Read.name false
  let t ← Read.string evaluator.unit {}
  assign name (.text t)
  return .text t

/--
`eat` moves the cursor by as many characters as the variable `n` says, also out of the text.
-/
def eat (_ : Evaluator) : Eval Value := do
  match (← cursor).scope.find? ['n'] with
  | some (.int n) =>
    advance n
    return .null
  | _ => fail (.foreign "eat needs an integer n".toList)

def int (evaluator : Evaluator) : Eval Value :=
  return ((← Read.int evaluator.unit {}).map .int).getD .null

def float (evaluator : Evaluator) : Eval Value :=
  return ((← Read.float evaluator.unit {}).map Read.Number.toValue).getD .null

/--
`split string` gives the pieces of a string between its commas.
-/
def split (evaluator : Evaluator) : Eval Value :=
  return .list ((Text.splitAt ',' (← Read.string evaluator.unit {})).map .text)

/--
The commands to probe a run with.
-/
def commands : List Command :=
  [⟨"set".toList, set⟩, ⟨"mark".toList, call .null⟩, ⟨"tick".toList, call (.text ['t'])⟩,
   ⟨"eat".toList, eat⟩, ⟨"boom".toList, fun _ => fail (.foreign "exploded".toList)⟩,
   ⟨"raw".toList, fun _ =>
      throw (.fault { cause := .custom .malformedArgument "raw failure".toList })⟩,
   ⟨"int".toList, int⟩, ⟨"float".toList, float⟩, ⟨"split".toList, split⟩,
   ⟨"stop".toList, fun _ => return .finish⟩]

/--
The standard commands and those to probe a run with.
-/
def registry : Registry Command :=
  Standard.registry.insertAll (commands.map fun command => (command.label, command))

variable {evaluator : Evaluator}

theorem orderly_call (result : Value) (evaluator : Evaluator) :
    Orderly (call result evaluator) := by
  unfold call
  apply inherited_orderly.bind inherited_orderly.index
  intro i
  apply inherited_orderly.bind (orderly_record _)
  intro _
  exact inherited_orderly.pure result

theorem orderly_set (hunit : Orderly evaluator.unit) : Orderly (set evaluator) := by
  unfold set
  apply inherited_orderly.bind (inherited_orderly.name false)
  intro name
  apply inherited_orderly.bind (inherited_orderly.string hunit _)
  intro t
  apply inherited_orderly.bind (orderly_assign name _)
  intro _
  exact inherited_orderly.pure _

theorem orderly_eat (evaluator : Evaluator) : Orderly (eat evaluator) := by
  unfold eat
  apply inherited_orderly.bind inherited_orderly.cursor
  intro c
  split
  . apply inherited_orderly.bind (inherited_orderly.advance _)
    intro _
    exact inherited_orderly.pure _
  . exact inherited_orderly.fail _

theorem orderly_body {command : Command} (h : command ∈ commands) (heval : evaluator.Has Orderly) :
    Orderly (command.body evaluator) := by
  simp only [commands, List.mem_cons, List.not_mem_nil, or_false] at h
  obtain rfl | rfl | rfl | rfl | rfl | rfl | rfl | rfl | rfl | rfl := h
  . exact orderly_set heval.unit
  . exact orderly_call _ evaluator
  . exact orderly_call _ evaluator
  . exact orderly_eat evaluator
  . exact inherited_orderly.fail _
  . exact inherited_orderly.throw _
  . exact inherited_orderly.bind (inherited_orderly.int heval.unit _) fun _ => inherited_orderly.pure _
  . exact inherited_orderly.bind (inherited_orderly.float heval.unit _) fun _ => inherited_orderly.pure _
  . exact inherited_orderly.bind (inherited_orderly.string heval.unit _) fun _ => inherited_orderly.pure _
  . exact inherited_orderly.pure _

theorem orderly_registry : registry.Has Orderly := by
  intro name command hlookup evaluator heval
  obtain hmem | hstandard := Registry.lookup_insertAll hlookup
  . rw [List.map_map] at hmem
    obtain ⟨_, hcommand, rfl⟩ := List.mem_map.mp hmem
    exact orderly_body hcommand heval
  . exact Standard.orderly_registry name command hstandard evaluator heval

end Probe

end LineScript
