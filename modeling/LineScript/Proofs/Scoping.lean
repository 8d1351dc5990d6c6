import LineScript.Proofs.Bounds
import LineScript.Proofs.Inherited

/-!
This module contains the proof that reading leaves the variables alone, whatever the commands in the
registry do with them. A command that runs in the middle of a read runs on a cursor of its own, which
is spawned for a substitution or a block, or assigned a value for one round of a loop. What it does to
that cursor is gone when the read goes on. No standard command changes a variable of the cursor that
it is called on.
-/

namespace LineScript

namespace Eval

variable {α β : Type}

/--
The computation leaves the text and the variables of the cursor as they are, also if it stops early.
-/
def Keeps (x : Eval α) : Prop :=
  ∀ s : State, (final (x s)).cursor.buffer = s.cursor.buffer ∧
    (final (x s)).cursor.scope = s.cursor.scope

theorem keeps_within (c : Cursor) (x : Eval α) : Keeps (within c x) := by
  intro s
  rw [final_within]
  exact ⟨rfl, rfl⟩

theorem keeps_trace (words : List (Option Text)) : Keeps (trace words) := by
  intro s
  apply final_of_yields (Q := fun s' => s'.cursor.buffer = s.cursor.buffer ∧
    s'.cursor.scope = s.cursor.scope)
  apply yields_trace
  . intro log
    exact ⟨rfl, rfl⟩
  . intro log
    exact ⟨rfl, rfl⟩

theorem Keeps.bind_of_ok {x : Eval α} {f : α → Eval β} (hx : Keeps x)
    (hf : ∀ a s s', x s = .ok a s' → Keeps (f a)) : Keeps (x >>= f) := by
  intro s
  apply final_bind (Q := fun s' => s'.cursor.buffer = s.cursor.buffer ∧
    s'.cursor.scope = s.cursor.scope) (hx s)
  rintro a s' hok ⟨hbuffer, hscope⟩
  obtain ⟨hbuffer', hscope'⟩ := hf a s s' hok s'
  exact ⟨hbuffer'.trans hbuffer, hscope'.trans hscope⟩

theorem inherited_keeps : Inherited Keeps where
  pure := fun _ _ => ⟨rfl, rfl⟩
  throw := fun _ _ => ⟨rfl, rfl⟩
  cursor := fun _ => ⟨rfl, rfl⟩
  moveTo := fun _ _ => ⟨rfl, rfl⟩
  advance := fun _ _ => ⟨rfl, rfl⟩
  record := fun _ _ _ => ⟨rfl, rfl⟩
  trace := fun _ _ => keeps_trace _
  bind_of_ok := Keeps.bind_of_ok

end Eval

open Eval

theorem Evaluator.keeps_unit (registry : Registry Command) (level : Nat) :
    Keeps (ofLevel registry level).unit := by
  induction level with
  | zero => exact inherited_keeps.throw _
  | succ level ih => exact inherited_keeps.unit ih fun c t => keeps_within _ _

theorem keeps_iterate (commands : Eval Unit) (name : Text) (elements : Elements) :
    Keeps (iterate commands name elements) := by
  apply inherited_keeps.iterate
  intro element
  apply inherited_keeps.runElement
  . intro c i
    exact keeps_within _ _
  . intro shown c i _
    exact keeps_trace _

theorem Standard.keeps_ofLevel (level : Nat) : (Evaluator.ofLevel registry level).Has Keeps :=
  inherited_keeps.ofLevel (fun c _ => keeps_within c _) (fun _ _ _ _ _ => keeps_trace _)
    (inherited_keeps.standard (fun c _ => keeps_within c _) fun _ _ => keeps_trace _) level

/--
With any commands in the registry, and from any cursor: units, numbers, strings, names, the search for
a command, loops and blocks leave the text and the variables as they are, whether they give a result
or stop early. With the standard commands alone, so do all commands.
-/
theorem reading_keeps_variables (registry : Registry Command) (level : Nat) :
    let evaluator := Evaluator.ofLevel registry level
    Keeps evaluator.unit ∧
      (∀ options, Keeps (Read.int evaluator.unit options)) ∧
      (∀ options, Keeps (Read.float evaluator.unit options)) ∧
      (∀ options, Keeps (Read.string evaluator.unit options)) ∧
      (∀ options, Keeps (Read.string Read.rawUnit options)) ∧
      (∀ skipSpaces, Keeps (Read.name skipSpaces)) ∧
      Keeps (findCommand registry evaluator.unit) ∧
      (∀ name elements, Keeps (iterate evaluator.commands name elements)) ∧
      Keeps (Standard.block (.bodies registry level)) ∧
      Keeps (Evaluator.ofLevel Standard.registry level).command ∧
      Keeps (Evaluator.ofLevel Standard.registry level).commands := by
  have hunit := Evaluator.keeps_unit registry level
  have hunit' : Keeps (Evaluator.bodies registry level).unit :=
    Evaluator.keeps_unit registry (level + 1)
  have hstandard := Standard.keeps_ofLevel level
  refine ⟨hunit, ?_, ?_, ?_, ?_, ?_, ?_, ?_, ?_, hstandard.command, hstandard.commands⟩
  . exact inherited_keeps.int hunit
  . exact inherited_keeps.float hunit
  . exact inherited_keeps.string hunit
  . exact inherited_keeps.string inherited_keeps.rawUnit
  . exact inherited_keeps.name
  . exact inherited_keeps.findCommand registry hunit fun _ _ _ _ _ => keeps_trace _
  . exact keeps_iterate _
  . exact inherited_keeps.block hunit' fun c t => keeps_within _ _

/--
The standard commands, and `set name string`, which assigns a variable.
-/
def assigningRegistry : Registry Command :=
  Standard.registry.register "set".toList
    ⟨"set".toList, fun evaluator => do
      let name ← Read.name false
      let t ← Read.string evaluator.unit {}
      assign name (.text t)
      return .text t⟩

/-- The command assigns a variable where it is run, and not where it is substituted. -/
example :
    (final ((Evaluator.ofLevel assigningRegistry 2).command
      { cursor := { buffer := "set x 1".toList } })).cursor.scope.names = [['x']] ∧
    (final ((Evaluator.ofLevel assigningRegistry 2).unit
      { cursor := { buffer := "${set x 1}".toList } })).cursor.scope.names = [] := by
  decide +kernel

end LineScript
