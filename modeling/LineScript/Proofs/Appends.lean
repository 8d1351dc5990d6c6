import LineScript.Proofs.Inherited

/-!
This module contains the proof that a run only ever adds to the log and never looks at it. A
computation that is started after other events does what it does without them, and leaves them at
the front of the log.
-/

namespace LineScript

def State.after (s : State) (log : Log) : State := { s with log := log ++ s.log }

namespace Eval

variable {α β : Type}

def after (log : Log) : EStateM.Result Stop State α → EStateM.Result Stop State α
  | .ok a s => .ok a (s.after log)
  | .error e s => .error e (s.after log)

/--
Events that come before those of the log make no difference to the computation.
-/
def Appends (x : Eval α) : Prop :=
  ∀ (log : Log) (s : State), x (s.after log) = after log (x s)

theorem appends_record (event : Event) : Appends (record event) := by
  intro log s
  have hpush : (log ++ s.log).push event = log ++ s.log.push event := by simp
  show EStateM.Result.ok () { s with log := (log ++ s.log).push event } = _
  rw [hpush]
  rfl

theorem Appends.bind_of_ok {x : Eval α} {f : α → Eval β} (hx : Appends x)
    (hf : ∀ a s s', x s = .ok a s' → Appends (f a)) : Appends (x >>= f) := by
  intro log s
  show EStateM.bind x f (s.after log) = after log (EStateM.bind x f s)
  unfold EStateM.bind
  rw [hx log s]
  cases hs : x s with
  | ok a s' => exact hf a s s' hs log s'
  | error e s' => rfl

theorem appends_within {x : Eval α} (c : Cursor) (hx : Appends x) : Appends (within c x) := by
  intro log s
  have hinner := hx log { s with cursor := c }
  have hstate : State.after { s with cursor := c } log = { s.after log with cursor := c } := rfl
  rw [hstate] at hinner
  unfold within
  rw [hinner]
  cases x { s with cursor := c } <;> rfl

theorem appends_trace (words : List (Option Text)) : Appends (trace words) := by
  -- whether something is written depends on the state, but not on its log
  have hget : ∀ {f : Bool → Eval Unit}, (∀ b, Appends (f b)) →
      Appends ((get : Eval State) >>= fun s => f s.tracing) := by
    intro f hf log s
    exact hf s.tracing log s
  apply hget (f := fun tracing => if tracing then _ else _)
  intro tracing
  split
  . apply Appends.bind_of_ok (appends_record _)
    intro _ _ _ _
    split
    . exact fun _ _ => rfl
    . exact fun _ _ => rfl
  . exact fun _ _ => rfl

theorem inherited_appends : Inherited Appends where
  pure := fun _ _ _ => rfl
  throw := fun _ _ _ => rfl
  cursor := fun _ _ => rfl
  moveTo := fun _ _ _ => rfl
  advance := fun _ _ _ => rfl
  record := fun event _ => appends_record event
  trace := fun _ _ => appends_trace _
  bind_of_ok := Appends.bind_of_ok

end Eval

def Registry.Appends (registry : Registry Command) : Prop := registry.Has Eval.Appends

theorem Standard.appends_registry : registry.Appends :=
  Eval.inherited_appends.standard Eval.appends_within fun _ _ => Eval.appends_trace _

theorem Evaluator.appends_ofLevel {registry : Registry Command} (hregistry : registry.Appends)
    (level : Nat) : (ofLevel registry level).Has Eval.Appends :=
  Eval.inherited_appends.ofLevel Eval.appends_within (fun _ _ _ _ _ => Eval.appends_trace _)
    hregistry level

end LineScript
