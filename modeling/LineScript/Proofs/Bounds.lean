import LineScript.Proofs.Standard

/-!
This module contains the proof that nothing that reads or runs text leaves it. From a cursor inside
its text, every read and every command ends between that place and the end of the text, and so does
one that stops early, although reads step over the end and give characters back on their way. A
command that has a result has moved the cursor.
-/

namespace LineScript

open Cursor

namespace Eval

variable {α β : Type} {s : State}

/--
The state that a run leaves, also if it stops early.
-/
def final : EStateM.Result Stop State α → State
  | .ok _ s => s
  | .error _ s => s

theorem final_of_yields {x : Eval α} {Q : State → Prop}
    (h : Yields x s (fun _ s' => Q s') fun _ s' => Q s') : Q (final (x s)) := by
  unfold Yields at h
  split at h
  . next hx =>
    rw [hx]
    exact h
  . next hx =>
    rw [hx]
    exact h

theorem final_bind {x : Eval α} {f : α → Eval β} {Q : State → Prop} (hx : Q (final (x s)))
    (hf : ∀ a s', x s = .ok a s' → Q s' → Q (final (f a s'))) : Q (final ((x >>= f) s)) := by
  cases hxs : x s with
  | ok a s' =>
    rw [hxs] at hx
    rw [bind_of_ok hxs]
    exact hf a s' hxs hx
  | error e s' =>
    rw [hxs] at hx
    rw [bind_of_error hxs]
    exact hx

theorem final_within (c : Cursor) (x : Eval α) (s : State) :
    final (within c x s) = { final (x { s with cursor := c }) with cursor := s.cursor } := by
  unfold within
  cases x { s with cursor := c } <;> rfl

/--
The computation leaves the cursor in its text, and not before the place where it found it.
-/
structure Forward (x : Eval α) (s : State) : Prop where
  buffer_eq : (final (x s)).cursor.buffer = s.cursor.buffer
  le_index : s.cursor.index ≤ (final (x s)).cursor.index
  index_le : (final (x s)).cursor.index ≤ s.cursor.buffer.length

theorem Takes.exists_took {x : Eval α} {R : Text → α → Prop} (h : Takes x s R) :
    ∃ used, s.cursor.Took used (final (x s)).cursor := by
  apply final_of_yields (Q := fun s' => ∃ used, s.cursor.Took used s'.cursor)
  apply Yields.mono h
  . rintro a s' ⟨used, htook, _⟩
    exact ⟨used, htook⟩
  . rintro e s' ⟨hused, _⟩
    exact hused

theorem Takes.forward {x : Eval α} {R : Text → α → Prop} (h : Takes x s R)
    (hs : s.cursor.InText) : Forward x s := by
  obtain ⟨used, htook⟩ := h.exists_took
  have hin := htook.inText hs
  constructor
  . exact htook.buffer_eq
  . rw [htook.index_eq]
    omega
  . rw [← htook.buffer_eq]
    exact hin.le_length

end Eval

namespace Read

open Eval

variable {s : State} {reader : Eval Value} {V : Text → Value → Prop}

theorem unitsTake_rawUnit (scope : Table Value) :
    UnitsTake rawUnit (WeighsUsed True) scope := by
  intro s hs _
  cases hahead : s.cursor.ahead with
  | nil =>
    rw [yields_of_eq_ok (verbatim_rawUnit.nil s hs hahead)]
    exact Or.inl ⟨rfl, _, rfl⟩
  | cons c rest =>
    rw [yields_of_eq_ok (verbatim_rawUnit.cons s c rest hs hahead rfl)]
    refine Or.inr ⟨[c], by simp, Took.of_eq_append hahead, fun _ => ?_⟩
    exact (Value.weighs_text _ _).mpr (Nat.le_refl _)

theorem takes_fraction (options : Options) (whole : Digits) (hs : s.cursor.InText)
    (hreader : UnitsTake reader V s.cursor.scope) :
    Takes (fraction reader options whole) s fun _ _ => True := by
  unfold fraction
  apply takes_index_bind
  dsimp only
  split
  . exact takes_pure trivial
  . apply takesFrom_bind (takes_token _ hs) (Took.refl _) hs
    intro point found s₁ h₁
    split
    . apply takesFrom_bind (takes_digits options (h₁.inText hs) (h₁.scope_eq ▸ hreader)) h₁ hs
      intro used d s₂ h₂
      split
      . -- the point is given back with what came after it
        apply takesFrom_moveTo_bind h₂
        intro s₃ h₃
        exact takesFrom_pure _ h₃
      . apply takesFrom_bind (takes_orFail (R := fun _ _ => True) fun _ _ => trivial) h₂ hs
        intro _ x s₃ h₃
        exact takesFrom_pure _ h₃
    . exact takesFrom_pure _ h₁

theorem takes_float (options : Options) (hs : s.cursor.InText)
    (hreader : UnitsTake reader V s.cursor.scope) :
    Takes (float reader options) s fun _ _ => True := by
  unfold float
  apply Takes.bind (takes_options_spaces _ hs) hs
  intro before _ s₁ h₁ hs₁ _
  have hreader₁ : UnitsTake reader V s₁.cursor.scope := h₁.scope_eq ▸ hreader
  apply takes_index_bind
  apply takesFrom_bind (takes_token _ hs₁) (Took.refl _) hs₁
  intro sign negative s₂ h₂
  apply takesFrom_bind (takes_digits options (h₂.inText hs₁) (h₂.scope_eq ▸ hreader₁)) h₂ hs₁
  intro used₃ whole s₃ h₃
  apply takesFrom_bind (takes_fraction options whole (h₃.inText hs₁) (h₃.scope_eq ▸ hreader₁)) h₃ hs₁
  intro used₄ number s₄ h₄
  dsimp only
  split
  . apply takesFrom_moveTo_bind h₄
    intro s₅ h₅
    exact takesFrom_spaces _ _ h₅ hs₁
  . exact takesFrom_spaces _ _ h₄ hs₁

end Read

open Eval Read

/--
Wherever the cursor is in its text, and whatever the variables hold: all reads, all commands and all
loops leave it between there and the end of the text, also if they stop early. A command that has a
result has moved it.
-/
theorem forward_from_inText (level : Nat) (s : State) (hs : s.cursor.InText) :
    let evaluator := Evaluator.ofLevel Standard.registry level
    (∀ options, Forward (Read.int evaluator.unit options) s) ∧
      (∀ options, Forward (Read.float evaluator.unit options) s) ∧
      (∀ options, Forward (Read.string evaluator.unit options) s) ∧
      (∀ options, Forward (Read.string rawUnit options) s) ∧
      (∀ skipSpaces, Forward (Read.name skipSpaces) s) ∧
      Forward (findCommand Standard.registry evaluator.unit) s ∧
      Forward evaluator.command s ∧
      Forward evaluator.commands s ∧
      (∀ name elements, Forward (iterate evaluator.commands name elements) s) ∧
      ∀ v s', evaluator.command s = .ok v s' → v.isFinish = false →
        s.cursor.index < s'.cursor.index := by
  have hsound : (Evaluator.ofLevel Standard.registry level).Sound := Standard.sound_ofLevel level
  have hraw := unitsTake_rawUnit s.cursor.scope
  refine ⟨fun options => ?_, fun options => ?_, fun options => ?_, fun options => ?_,
    fun skipSpaces => ?_, ?_, ?_, ?_, fun name elements => ?_, fun v s' hcommand hv => ?_⟩
  . exact (takes_int options hs hsound.reader).forward hs
  . exact (takes_float options hs hsound.reader).forward hs
  . exact (takes_string options hs hsound.reader).forward hs
  . exact (takes_string options hs hraw).forward hs
  . exact (takes_string _ hs hraw).forward hs
  . exact (takes_findCommand _ hsound hs).forward hs
  . exact (hsound.command s hs).forward hs
  . exact (hsound.commands s hs).forward hs
  . exact (takes_iterate elements hsound.commands hs).forward hs
  . obtain ⟨used, htook, hpost⟩ := Yields.of_ok (hsound.command s hs) hcommand
    have hpos := List.length_pos_iff.mpr (hpost.1 hv)
    rw [htook.index_eq]
    omega

/--
Before `return a$y$x b` in a text, with no value in `x` and an empty one in `y`.
-/
def beforeEmptyVariables : State :=
  { cursor := { buffer := ";return a$y$x b".toList, index := 1,
                scope := .ofList [(['x'], .null), (['y'], .text [])] } }

theorem forward_from_inText_emptyVariables :
    beforeEmptyVariables.cursor.InText ∧
      ∃ v s', (Evaluator.ofLevel Standard.registry 2).command beforeEmptyVariables = .ok v s' ∧
        v.isFinish = false ∧ 1 < s'.cursor.index ∧ s'.cursor.index ≤ 15 := by
  have hin : beforeEmptyVariables.cursor.InText := ⟨by decide, by decide⟩
  have hok : (match (Evaluator.ofLevel Standard.registry 2).command beforeEmptyVariables with
      | .ok v _ => !v.isFinish
      | .error .. => false) = true := by
    decide +kernel
  refine ⟨hin, ?_⟩
  obtain ⟨-, -, -, -, -, -, hforward, -, -, hprogress⟩ :=
    forward_from_inText 2 beforeEmptyVariables hin
  split at hok
  . next v s' hcommand =>
    have hv : v.isFinish = false := by simpa using hok
    have hle := hforward.index_le
    rw [hcommand] at hle
    exact ⟨v, s', hcommand, hv, hprogress v s' hcommand hv, hle⟩
  . cases hok

end LineScript
