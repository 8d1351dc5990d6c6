import LineScript.Eval

/-!
This module contains the rules that reduce a statement on a computation to statements on its parts.
`Eval.Yields x s Q E` says how `x` ends if it is started in `s`: with a value and a state in `Q`, or
stopped early, with a reason and a state in `E`.
-/

namespace LineScript

def State.advance (s : State) (n : Int) : State := { s with cursor := s.cursor.advance n }

@[simp]
theorem State.advance_cursor (s : State) (n : Int) :
    (s.advance n).cursor = s.cursor.advance n := rfl

@[simp]
theorem State.advance_log (s : State) (n : Int) : (s.advance n).log = s.log := rfl

namespace Eval

variable {α β : Type} {Q Q' : α → State → Prop} {E E' : Stop → State → Prop}

theorem bind_of_ok {x : Eval α} {f : α → Eval β} {s s' : State} {a : α} (h : x s = .ok a s') :
    (x >>= f) s = f a s' := by
  simp only [bind, EStateM.bind, h]

theorem bind_of_error {x : Eval α} {f : α → Eval β} {s s' : State} {e : Stop}
    (h : x s = .error e s') : (x >>= f) s = .error e s' := by
  simp only [bind, EStateM.bind, h]

theorem within_of_ok {x : Eval α} {c : Cursor} {s s' : State} {a : α}
    (h : x { s with cursor := c } = .ok a s') :
    within c x s = .ok a { s' with cursor := s.cursor } := by
  simp only [within, h]

theorem within_of_error {x : Eval α} {c : Cursor} {s s' : State} {e : Stop}
    (h : x { s with cursor := c } = .error e s') :
    within c x s = .error e { s' with cursor := s.cursor } := by
  simp only [within, h]

theorem index_bind (f : Int → Eval β) (s : State) : (index >>= f) s = f s.cursor.index s := rfl

theorem cursor_bind (f : Cursor → Eval β) (s : State) : (cursor >>= f) s = f s.cursor s := rfl

theorem state_eq_of_orFail {failure : Failure} {o : Option α} {a : α} {s s' : State}
    (h : orFail failure o s = .ok a s') : s' = s := by
  cases o with
  | none => cases h
  | some a =>
    cases h
    rfl

theorem eq_some_of_orFail {failure : Failure} {o : Option α} {a : α} {s s' : State}
    (h : orFail failure o s = .ok a s') : o = some a := by
  cases o with
  | none => cases h
  | some a =>
    cases h
    rfl

/--
From the state `s` the computation ends with a value and a state in `Q`, or it stops in `E`.
-/
def Yields (x : Eval α) (s : State) (Q : α → State → Prop) (E : Stop → State → Prop) : Prop :=
  match x s with
  | .ok a s' => Q a s'
  | .error e s' => E e s'

theorem Yields.mono {x : Eval α} {s : State} (h : Yields x s Q E) (hq : ∀ a s', Q a s' → Q' a s')
    (he : ∀ e s', E e s' → E' e s') : Yields x s Q' E' := by
  unfold Yields at *
  split at h
  . apply hq
    assumption
  . apply he
    assumption

theorem yields_of_forall {x : Eval α} {s : State} (hq : ∀ a s', Q a s') (he : ∀ e s', E e s') :
    Yields x s Q E := by
  unfold Yields
  split
  . apply hq
  . apply he

theorem Yields.of_ok {x : Eval α} {s s' : State} {a : α} (h : Yields x s Q E)
    (hx : x s = .ok a s') : Q a s' := by
  unfold Yields at h
  rw [hx] at h
  exact h

theorem Yields.of_error {x : Eval α} {s s' : State} {e : Stop} (h : Yields x s Q E)
    (hx : x s = .error e s') : E e s' := by
  unfold Yields at h
  rw [hx] at h
  exact h

theorem yields_of_eq_ok {x : Eval α} {s s' : State} {a : α} (hx : x s = .ok a s') :
    Yields x s Q E ↔ Q a s' := by
  unfold Yields
  rw [hx]

theorem eq_ok_of_yields {x : Eval α} {s s' : State} {a : α}
    (h : Yields x s (fun a' s'' => a' = a ∧ s'' = s') fun _ _ => False) : x s = .ok a s' := by
  unfold Yields at h
  split at h
  . next hx =>
    rw [hx, h.1, h.2]
  . exact h.elim

@[simp]
theorem yields_pure (a : α) (s : State) : Yields (pure a) s Q E ↔ Q a s := Iff.rfl

@[simp]
theorem yields_throw (e : Stop) (s : State) : Yields (throw e : Eval α) s Q E ↔ E e s := Iff.rfl

@[simp]
theorem yields_bind (x : Eval α) (f : α → Eval β) (s : State) {Q : β → State → Prop} :
    Yields (x >>= f) s Q E ↔ Yields x s (fun a s' => Yields (f a) s' Q E) E := by
  unfold Yields
  simp only [bind, EStateM.bind]
  cases x s <;> rfl

@[simp]
theorem yields_discard (x : Eval α) (s : State) {Q : PUnit → State → Prop} :
    Yields (discard x) s Q E ↔ Yields x s (fun _ s' => Q ⟨⟩ s') E := by
  simp only [Yields, Functor.discard, Functor.mapConst, Function.comp, EStateM.map]
  cases x s <;> rfl

@[simp]
theorem yields_get (s : State) {Q : State → State → Prop} : Yields get s Q E ↔ Q s s := Iff.rfl

@[simp]
theorem yields_cursor (s : State) {Q : Cursor → State → Prop} :
    Yields cursor s Q E ↔ Q s.cursor s := Iff.rfl

@[simp]
theorem yields_index (s : State) {Q : Int → State → Prop} :
    Yields index s Q E ↔ Q s.cursor.index s := Iff.rfl

@[simp]
theorem yields_moveTo (i : Int) (s : State) {Q : Unit → State → Prop} :
    Yields (moveTo i) s Q E ↔ Q () { s with cursor := s.cursor.moveTo i } := Iff.rfl

@[simp]
theorem yields_advance (n : Int) (s : State) {Q : Unit → State → Prop} :
    Yields (advance n) s Q E ↔ Q () (s.advance n) := Iff.rfl

@[simp]
theorem yields_record (event : Event) (s : State) {Q : Unit → State → Prop} :
    Yields (record event) s Q E ↔ Q () { s with log := s.log.push event } := Iff.rfl

@[simp]
theorem yields_emit (topic : Topic) (message : Text) (s : State) {Q : Unit → State → Prop} :
    Yields (emit topic message) s Q E ↔
      Q () { s with log := s.log.push (.effect ⟨topic, message⟩) } := Iff.rfl

@[simp]
theorem yields_pause (seconds : Binary64) (s : State) {Q : Unit → State → Prop} :
    Yields (pause seconds) s Q E ↔ Q () { s with log := s.log.push (.pause seconds) } := Iff.rfl

@[simp]
theorem yields_raise (f : Fault) (i : Option Int) (s : State) :
    Yields (raise f i : Eval α) s Q E ↔
      E (.fault (f.locate s.cursor.buffer (i.getD s.cursor.index))) s := Iff.rfl

@[simp]
theorem yields_fault (cause : Cause) (i : Int) (s : State) :
    Yields (fault cause i : Eval α) s Q E ↔
      E (.fault ⟨cause, some i, some s.cursor.buffer⟩) s := Iff.rfl

@[simp]
theorem yields_fail (failure : Failure) (s : State) :
    Yields (fail failure : Eval α) s Q E ↔ E (.failure failure) s := Iff.rfl

theorem yields_orFail {failure : Failure} {o : Option α} {s : State}
    (hq : ∀ a, o = some a → Q a s) (he : o = none → E (.failure failure) s) :
    Yields (orFail failure o) s Q E := by
  cases o with
  | none => exact he rfl
  | some a => exact hq a rfl

@[simp]
theorem yields_within (c : Cursor) (x : Eval α) (s : State) :
    Yields (within c x) s Q E ↔
      Yields x { s with cursor := c } (fun a s' => Q a { s' with cursor := s.cursor })
        (fun e s' => E e { s' with cursor := s.cursor }) := by
  unfold Yields within
  cases x { s with cursor := c } <;> rfl

theorem yields_trace {words : List (Option Text)} {s : State} {Q : Unit → State → Prop}
    (hq : ∀ log, Q () { s with log })
    (he : ∀ log, E (.failure .unprintable) { s with log }) : Yields (trace words) s Q E := by
  unfold trace
  simp only [yields_bind, yields_get]
  split
  . simp only [yields_bind, yields_record]
    split
    . apply hq
    . apply he
  . exact hq s.log

end Eval

end LineScript
