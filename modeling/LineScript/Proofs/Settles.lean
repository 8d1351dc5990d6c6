import LineScript.Proofs.Sound

/-!
This module contains the rules for computations that come in levels. Such a computation settles if
from some level on it gives one and the same result, and it has not run out of levels. The rules lead
from the parts of a computation to the whole, and from the units that are read to all reads.
-/

namespace LineScript.Eval

open Cursor

variable {α β : Type} {s : State}

/--
From some level on the computation gives the same result, which is not that it is exhausted.
-/
def Settles (x : Nat → Eval α) (s : State) : Prop :=
  ∃ (n : Nat) (r : EStateM.Result Stop State α),
    (∀ m, n ≤ m → x m s = r) ∧ ∀ s', r ≠ .error .exhausted s'

theorem settles_of_eq_ok {x : Nat → Eval α} {a : α} {s' : State} (h : ∀ m, x m s = .ok a s') :
    Settles x s :=
  ⟨0, .ok a s', fun m _ => h m, fun _ => by simp⟩

theorem settles_pure (a : α) : Settles (fun _ => pure a) s := settles_of_eq_ok fun _ => rfl

theorem settles_fail (failure : Failure) : Settles (fun _ => (fail failure : Eval α)) s :=
  ⟨0, .error (.failure failure) s, fun _ _ => rfl, fun _ => by simp⟩

theorem settles_fault (cause : Cause) (i : Int) : Settles (fun _ => (fault cause i : Eval α)) s :=
  ⟨0, .error (.fault ⟨cause, some i, some s.cursor.buffer⟩) s, fun _ _ => rfl, fun _ => by simp⟩

theorem settles_fault_bind {f : Nat → α → Eval β} (cause : Cause) (i : Int) :
    Settles (fun m => fault cause i >>= f m) s :=
  ⟨0, .error (.fault ⟨cause, some i, some s.cursor.buffer⟩) s, fun _ _ => rfl, fun _ => by simp⟩

theorem settles_emit (topic : Topic) (message : Text) : Settles (fun _ => emit topic message) s :=
  settles_of_eq_ok fun _ => rfl

theorem settles_pause (seconds : Binary64) : Settles (fun _ => pause seconds) s :=
  settles_of_eq_ok fun _ => rfl

theorem settles_orFail (failure : Failure) (o : Option α) :
    Settles (fun _ => orFail failure o) s := by
  cases o with
  | none => exact settles_fail failure
  | some a => exact settles_pure a

theorem settles_const {x : Eval α} (h : Yields x s (fun _ _ => True) fun e _ => e ≠ .exhausted) :
    Settles (fun _ => x) s := by
  refine ⟨0, x s, fun _ _ => rfl, ?_⟩
  intro s' hx
  exact Yields.of_error h hx rfl

theorem settles_trace (words : List (Option Text)) : Settles (fun _ => trace words) s := by
  apply settles_const
  apply yields_trace
  . intro _
    trivial
  . intro _
    simp

theorem Settles.succ {x : Nat → Eval α} (h : Settles x s) : Settles (fun m => x (m + 1)) s := by
  obtain ⟨n, r, hr, hne⟩ := h
  exact ⟨n, r, fun m hm => hr (m + 1) (by omega), hne⟩

theorem Settles.of_succ {x : Nat → Eval α} (h : Settles (fun m => x (m + 1)) s) : Settles x s := by
  obtain ⟨n, r, hr, hne⟩ := h
  refine ⟨n + 1, r, ?_, hne⟩
  intro m hm
  cases m with
  | zero => omega
  | succ m => exact hr m (by omega)

theorem Settles.bind {x : Nat → Eval α} {f : Nat → α → Eval β} (hx : Settles x s)
    (hf : ∀ m a s', x m s = .ok a s' → Settles (fun m => f m a) s') :
    Settles (fun m => x m >>= f m) s := by
  obtain ⟨n, r, hr, hne⟩ := hx
  cases r with
  | error e s' =>
    refine ⟨n, .error e s', fun m hm => bind_of_error (hr m hm), ?_⟩
    intro s'' heq
    cases heq
    exact hne _ rfl
  | ok a s' =>
    -- from the larger of the two levels on both parts have settled
    obtain ⟨n', r', hr', hne'⟩ := hf n a s' (hr n (Nat.le_refl n))
    refine ⟨max n n', r', ?_, hne'⟩
    intro m hm
    exact (bind_of_ok (hr m (by omega))).trans (hr' m (by omega))

theorem Settles.bind_of_eq_ok {x : Eval α} {f : Nat → α → Eval β} {a : α} {s' : State}
    (hx : x s = .ok a s') (hf : Settles (fun m => f m a) s') : Settles (fun m => x >>= f m) s := by
  obtain ⟨n, r, hr, hne⟩ := hf
  exact ⟨n, r, fun m hm => (bind_of_ok hx).trans (hr m hm), hne⟩

theorem settles_index_bind {f : Nat → Int → Eval β} (h : Settles (fun m => f m s.cursor.index) s) :
    Settles (fun m => index >>= f m) s :=
  Settles.bind_of_eq_ok rfl h

theorem settles_cursor_bind {f : Nat → Cursor → Eval β} (h : Settles (fun m => f m s.cursor) s) :
    Settles (fun m => cursor >>= f m) s :=
  Settles.bind_of_eq_ok rfl h

theorem settles_moveTo_bind {f : Nat → Unit → Eval β} {i : Int}
    (h : Settles (fun m => f m ()) { s with cursor := s.cursor.moveTo i }) :
    Settles (fun m => moveTo i >>= f m) s :=
  Settles.bind_of_eq_ok rfl h

theorem settles_advance_bind {f : Nat → Unit → Eval β} {n : Int}
    (h : Settles (fun m => f m ()) (s.advance n)) : Settles (fun m => advance n >>= f m) s :=
  Settles.bind_of_eq_ok rfl h

theorem Settles.within {x : Nat → Eval α} {c : Cursor} (h : Settles x { s with cursor := c }) :
    Settles (fun m => within c (x m)) s := by
  obtain ⟨n, r, hr, hne⟩ := h
  cases r with
  | ok a s' =>
    refine ⟨n, .ok a { s' with cursor := s.cursor }, ?_, fun _ => by simp⟩
    intro m hm
    simp only [Eval.within, hr m hm]
  | error e s' =>
    refine ⟨n, .error e { s' with cursor := s.cursor }, ?_, ?_⟩
    . intro m hm
      simp only [Eval.within, hr m hm]
    . intro s'' heq
      cases heq
      exact hne _ rfl

end LineScript.Eval

namespace LineScript

open Eval Cursor

/--
The cursor is in its text, its variables are light, and the text ahead weighs at most `w`.
-/
structure Cursor.Bounded (w : Nat) (c : Cursor) : Prop where
  inText : c.InText
  light : c.Light
  weight_le : c.ahead.weight ≤ w

theorem Cursor.Bounded.took {v w : Nat} {c c' : Cursor} {used : Text} (h : c.Bounded w)
    (htook : c.Took used c') (hv : w ≤ v + used.weight) : c'.Bounded v := by
  refine ⟨htook.inText h.inText, htook.light_eq ▸ h.light, ?_⟩
  have := h.weight_le
  rw [htook.ahead_eq h.inText, Text.weight_append] at this
  omega

theorem Cursor.Bounded.took_le {w : Nat} {c c' : Cursor} {used : Text} (h : c.Bounded w)
    (htook : c.Took used c') : c'.Bounded w :=
  h.took htook (Nat.le_add_right _ _)

theorem Cursor.Bounded.spawn {w : Nat} {c : Cursor} (h : c.Light) {t : Text} (ht : t.weight ≤ w) :
    (c.spawn t).Bounded w :=
  ⟨spawn_inText c t, h, ht⟩

theorem Cursor.Bounded.weight_string_le {w : Nat} {c c' : Cursor} {used t : Text}
    (h : c.Bounded w) (htook : c.Took used c') (ht : Read.StringPost c.Light used t) :
    t.weight ≤ w :=
  Nat.le_trans (ht.weight_le h.light htook h.inText) h.weight_le

theorem Eval.Settles.bind_takes {α β : Type} {s : State} {w : Nat} {x : Nat → Eval α}
    {f : Nat → α → Eval β} {R : Text → α → Prop} (hx : Settles x s) (htakes : ∀ m, Takes (x m) s R)
    (hs : s.cursor.Bounded w)
    (hf : ∀ used a s', s.cursor.Took used s'.cursor → s'.cursor.Bounded w → R used a →
      Settles (fun m => f m a) s') :
    Settles (fun m => x m >>= f m) s := by
  apply Settles.bind hx
  intro m a s' hm
  obtain ⟨used, htook, hused⟩ := Yields.of_ok (htakes m) hm
  exact hf used a s' htook (hs.took_le htook) hused

namespace Read

variable {β σ : Type} {s : State} {F : Nat → Evaluator} {w : Nat}

/--
Units settle wherever the text ahead weighs at most `w`.
-/
def UnitsSettle (F : Nat → Evaluator) (w : Nat) : Prop :=
  ∀ s : State, s.cursor.Bounded w → Settles (fun m => (F m).unit) s

theorem settles_spaces (hs : s.cursor.InText) : Settles (fun _ => spaces) s :=
  settles_of_eq_ok fun _ => spaces_eq hs

theorem settles_options_spaces (options : Options) (hs : s.cursor.InText) :
    Settles (fun _ => options.spaces) s := by
  unfold Options.spaces
  split
  . exact settles_spaces hs
  . exact settles_pure ()

theorem settles_token (t : Text) (hs : s.cursor.InText) : Settles (fun _ => token t) s := by
  have hx := token_eq hs t
  split at hx
  . exact settles_of_eq_ok fun _ => hx
  . exact settles_of_eq_ok fun _ => hx

theorem settles_matcher (options : StringOptions) (hs : s.cursor.InText) :
    Settles (fun _ => options.matcher) s := by
  unfold StringOptions.matcher
  split
  . exact settles_pure _
  . apply Settles.bind (settles_token _ hs)
    intro _ found s' _
    exact settles_pure _

theorem scan.settles_go (judge : σ → Text → Verdict σ) (hsound : ∀ m, (F m).Sound)
    (hunits : UnitsSettle F w) (budget : Nat) (d : σ) (hs : s.cursor.Bounded w)
    (hbudget : s.cursor.ahead.length < budget) :
    Settles (fun m => go (F m).unit judge budget d) s := by
  -- a unit that has a value takes characters, so the budget is never used up
  induction budget generalizing s d with
  | zero => omega
  | succ budget ih =>
    unfold go
    apply settles_index_bind
    apply Settles.bind (hunits s hs)
    intro m v s₁ hunit
    have hpost := Yields.of_ok ((hsound m).unit s hs.inText) hunit
    by_cases hnull : v = .null
    . subst hnull
      apply settles_moveTo_bind
      exact settles_pure d
    . obtain ⟨used, hne, htook, _⟩ : ∃ used, used ≠ [] ∧ s.cursor.Took used s₁.cursor ∧
          WeighsUsed s.cursor.Light used v := by
        cases hpost with
        | inl h => exact absurd h.1 hnull
        | inr h => exact h
      have hlen := htook.length_lt hs.inText hne
      cases v
      case null => exact absurd rfl hnull
      all_goals
        apply Settles.bind (settles_orFail _ _)
        intro _ t s₂ htext
        obtain rfl := state_eq_of_orFail htext
        cases judge d t with
        | next d => exact ih d (hs.took_le htook) (by omega)
        | keep d => exact settles_pure d
        | giveBack d =>
          apply settles_moveTo_bind
          exact settles_pure d
        | refuse failure => exact settles_fail failure

theorem settles_scan (judge : σ → Text → Verdict σ) (hsound : ∀ m, (F m).Sound)
    (hunits : UnitsSettle F w) (start : σ) (hs : s.cursor.Bounded w) :
    Settles (fun m => scan (F m).unit judge start) s := by
  unfold scan
  apply settles_cursor_bind
  apply scan.settles_go judge hsound hunits _ _ hs
  rw [remaining_eq hs.inText]
  omega

theorem settles_string (options : StringOptions) (hsound : ∀ m, (F m).Sound)
    (hunits : UnitsSettle F w) (hs : s.cursor.Bounded w) :
    Settles (fun m => string (F m).unit options) s := by
  unfold string
  apply (settles_options_spaces _ hs.inText).bind_takes (fun _ => takes_options_spaces _ hs.inText) hs
  intro _ _ s₁ _ hs₁ _
  apply (settles_matcher _ hs₁.inText).bind_takes (fun _ => takes_matcher _ hs₁.inText) hs₁
  intro _ stop s₂ _ hs₂ _
  apply (settles_scan _ hsound hunits _ hs₂).bind_takes
    (fun m => takes_draft _ _ _ hs₂.inText (hsound m).reader) hs₂
  intro _ d s₃ _ hs₃ _
  apply Settles.bind (settles_options_spaces _ hs₃.inText)
  intro _ _ s₄ _
  exact settles_pure _

theorem settles_string_bind {f : Nat → Text → Eval β} (options : StringOptions)
    (hsound : ∀ m, (F m).Sound) (hunits : UnitsSettle F w) (hs : s.cursor.Bounded w)
    (hf : ∀ used t s', s.cursor.Took used s'.cursor → s'.cursor.Bounded w →
      StringPost s.cursor.Light used t → Settles (fun m => f m t) s') :
    Settles (fun m => string (F m).unit options >>= f m) s :=
  (settles_string options hsound hunits hs).bind_takes
    (fun m => takes_string options hs.inText (hsound m).reader) hs hf

theorem settles_int (options : Options) (hsound : ∀ m, (F m).Sound) (hunits : UnitsSettle F w)
    (hs : s.cursor.Bounded w) : Settles (fun m => int (F m).unit options) s := by
  unfold int
  apply (settles_options_spaces _ hs.inText).bind_takes (fun _ => takes_options_spaces _ hs.inText) hs
  intro _ _ s₁ _ hs₁ _
  apply settles_index_bind
  apply (settles_token _ hs₁.inText).bind_takes (fun _ => takes_token _ hs₁.inText) hs₁
  intro _ negative s₂ h₂ hs₂ _
  apply (settles_scan _ hsound hunits _ hs₂).bind_takes
    (fun m => takes_digits options hs₂.inText (hsound m).reader) hs₂
  intro _ d s₃ h₃ hs₃ _
  by_cases hback : (d.value.isNone && negative && !d.ended) = true
  . have hcursor : s₃.cursor.moveTo s₁.cursor.index = s₁.cursor := by
      rw [h₃.eq_advance, h₂.eq_advance]
      rfl
    have hmove : moveTo s₁.cursor.index s₃ = .ok () { s₃ with cursor := s₁.cursor } := by
      rw [← hcursor]
      rfl
    simp only [hback, ↓reduceIte]
    apply Settles.bind_of_eq_ok hmove
    apply Settles.bind (settles_options_spaces (s := { s₃ with cursor := s₁.cursor }) _ hs₁.inText)
    intro _ _ s₄ _
    exact settles_pure _
  . simp only [hback, Bool.false_eq_true, ↓reduceIte]
    apply Settles.bind (settles_options_spaces _ hs₃.inText)
    intro _ _ s₄ _
    exact settles_pure _

theorem settles_int_bind {f : Nat → Option Int → Eval β} (options : Options)
    (hsound : ∀ m, (F m).Sound) (hunits : UnitsSettle F w) (hs : s.cursor.Bounded w)
    (hf : ∀ i s', s'.cursor.Bounded w → Settles (fun m => f m i) s') :
    Settles (fun m => int (F m).unit options >>= f m) s := by
  apply (settles_int options hsound hunits hs).bind_takes
    (fun m => takes_int options hs.inText (hsound m).reader) hs
  intro _ i s' _ hs' _
  exact hf i s' hs'

end Read

end LineScript
