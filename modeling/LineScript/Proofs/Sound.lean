import LineScript.Evaluator
import LineScript.Proofs.Literal
import LineScript.Proofs.Takes

/-!
This module contains the contract between evaluators and the commands that they run. An evaluator is
sound if whatever it reads or runs takes characters off the text ahead and stays in the text, also
when it stops early; if a command that has a result took at least one character; and if, as long as
the variables are light, no result weighs more than the characters it came from. A registry is sound
if its commands keep this contract, and then the evaluators of all levels are sound.
-/

namespace LineScript

open Eval Cursor Read

/--
A command that has a result took at least one character. Its result weighs no more than what it took,
provided that `light` holds.
-/
def CommandPost (light : Prop) (used : Text) (v : Value) : Prop :=
  (v.isFinish = false → used ≠ []) ∧ v.Plain ∧ WeighsUsed light used v

def BodyPost (light : Prop) (used : Text) (v : Value) : Prop :=
  v.Plain ∧ WeighsUsed light used v

/--
The contract of an evaluator.
-/
structure Evaluator.Sound (evaluator : Evaluator) : Prop where
  unit : ∀ s : State, s.cursor.InText →
    Yields evaluator.unit s
      (fun v s' => UnitPost (WeighsUsed s.cursor.Light) s.cursor v s'.cursor)
      (fun e s' => (∃ used, s.cursor.Took used s'.cursor) ∧ e.Placed)
  command : ∀ s : State, s.cursor.InText →
    Takes evaluator.command s (CommandPost s.cursor.Light)
  commands : ∀ s : State, s.cursor.InText → Takes evaluator.commands s fun _ _ => True

def Command.Sound (command : Command) : Prop :=
  ∀ (evaluator : Evaluator) (s : State), evaluator.Sound → s.cursor.InText →
    Takes (command.body evaluator) s (BodyPost s.cursor.Light)

def Registry.Sound (registry : Registry Command) : Prop :=
  ∀ name command, registry.lookup name = some command → command.Sound

variable {evaluator : Evaluator} {s : State}

theorem Cursor.light_of_scope_eq {c c' : Cursor} (h : c'.scope = c.scope) : c'.Light = c.Light := by
  unfold Light
  rw [h]

theorem Cursor.Took.light_eq {c c' : Cursor} {used : Text} (h : c.Took used c') :
    c'.Light = c.Light :=
  light_of_scope_eq h.scope_eq

theorem Evaluator.Sound.reader (h : evaluator.Sound) :
    UnitsTake evaluator.unit (WeighsUsed s.cursor.Light) s.cursor.scope := by
  intro s' hs' hscope
  rw [← light_of_scope_eq hscope]
  exact h.unit s' hs'

theorem Eval.yields_trace_still {words : List (Option Text)} :
    Yields (trace words) s (fun _ s' => s'.cursor = s.cursor ∧ True)
      (fun e s' => s'.cursor = s.cursor ∧ e.Placed) := by
  apply yields_trace
  . intro log
    exact ⟨rfl, trivial⟩
  . intro log
    exact ⟨rfl, trivial⟩

theorem Eval.takes_trace {words : List (Option Text)} : Takes (trace words) s fun _ _ => True :=
  takes_of_still yields_trace_still

theorem Eval.takes_trace_bind {α : Type} {words : List (Option Text)} {f : Unit → Eval α}
    {R : Text → α → Prop} (h : ∀ s' : State, s'.cursor = s.cursor → Takes (f ()) s' R) :
    Takes (trace words >>= f) s R := by
  apply Takes.bind_still yields_trace_still
  intro _ s' hcursor _
  exact h s' hcursor

namespace Read

theorem takes_substitution (h : evaluator.Sound) (hs : s.cursor.InText) :
    Takes (substitution evaluator) s (WeighsUsed s.cursor.Light) := by
  unfold substitution
  apply Takes.bind (takes_string substitutionOptions hs h.reader) hs
  intro used text s₁ h₁ hs₁ htext
  apply takes_trace_bind
  intro s₂ hcursor
  apply takes_cursor_bind
  apply takes_of_still
  rw [yields_bind, yields_within]
  have hlight : (s₂.cursor.spawn text).Light = s.cursor.Light :=
    light_of_scope_eq (by rw [hcursor]; exact h₁.scope_eq)
  apply Yields.mono (h.command { s₂ with cursor := s₂.cursor.spawn text } (spawn_inText _ _))
  . rintro v s₃ ⟨inner, hinner, _, _, hweighs⟩
    -- the command in the text takes a part of it, which bounds the weight of its result
    have hle : inner.weight ≤ text.weight := by
      have hprefix : inner <+: text := hinner.isPrefix
      obtain ⟨rest, rfl⟩ := hprefix
      rw [Text.weight_append]
      omega
    split
    . refine ⟨rfl, fun _ => ?_⟩
      exact (Value.weighs_text _ _).mpr (Nat.zero_le _)
    . refine ⟨rfl, fun _ => ?_⟩
      exact (Value.weighs_text _ _).mpr (Nat.zero_le _)
    . refine ⟨rfl, fun hl => ?_⟩
      apply Value.Weighs.mono (hweighs (hlight ▸ hl))
      rw [List.append_nil]
      exact Nat.le_trans hle (htext.2 hl)
  . rintro e s₃ ⟨_, he⟩
    exact ⟨rfl, he⟩

theorem takes_variableValue (hs : s.cursor.InText) {before : Text}
    (hbuffer : s.cursor.buffer = before ++ '$' :: s.cursor.ahead)
    (hindex : s.cursor.index = before.length + 1) :
    Takes variableValue s fun _ v => s.cursor.Light → v.Weighs 1 := by
  unfold variableValue
  apply takes_index_bind
  have hname : Takes (name false) s fun used n =>
      used = n ∧ n = s.cursor.ahead.takeWhile Text.isNameChar :=
    takes_of_eq (name_eq hs) (List.takeWhile_prefix _) ⟨rfl, rfl⟩
  apply Takes.bind hname hs
  rintro used n s₁ h₁ hs₁ ⟨_, hn⟩
  apply takes_cursor_bind
  split
  . next v hv =>
    apply takes_pure
    intro hlight
    exact hlight n v (by rw [← h₁.scope_eq]; exact hv)
  . apply takes_fault
    refine ⟨s₁.cursor.buffer, before.length + 1, rfl, by rw [hindex]; rfl, ?_, ?_⟩
    . rw [h₁.buffer_eq, hbuffer]
      simp
    . -- the name is all of the letters and digits ahead, so none follows it
      intro _
      refine ⟨n, rfl, before, s.cursor.ahead.dropWhile Text.isNameChar, ?_, rfl, ?_, ?_⟩
      . rw [h₁.buffer_eq, hbuffer, hn, List.append_assoc, List.cons_append,
          List.takeWhile_append_dropWhile]
      . rw [hn]
        exact List.all_eq_true.mp List.all_takeWhile
      . intro c hc
        exact Text.eq_false_of_head?_dropWhile hc

theorem yields_unit (h : evaluator.Sound) (hs : s.cursor.InText) :
    Yields (unit evaluator) s
      (fun v s' => UnitPost (WeighsUsed s.cursor.Light) s.cursor v s'.cursor)
      (fun e s' => (∃ used, s.cursor.Took used s'.cursor) ∧ e.Placed) := by
  unfold unit
  rw [yields_bind, yields_of_eq_ok (char_eq hs)]
  cases hahead : s.cursor.ahead with
  | nil => exact Or.inl ⟨rfl, _, rfl⟩
  | cons c rest =>
    obtain ⟨hs₁, hrest⟩ := ahead_of_cons hs hahead
    have h₁ : s.cursor.Took [c] (s.advance 1).cursor := Took.of_eq_append hahead
    -- a character that stands for itself
    have hself : ∀ s' : State, s'.cursor = (s.advance 1).cursor →
        UnitPost (WeighsUsed s.cursor.Light) s.cursor (.text [c]) s'.cursor := by
      intro s' hs'
      refine Or.inr ⟨[c], by simp, hs' ▸ h₁, fun _ => ?_⟩
      exact (Value.weighs_text _ _).mpr (Nat.le_refl _)
    rw [List.head?_cons]
    split
    . next heq =>
      cases heq
      rw [yields_bind, yields_of_eq_ok (peek_eq hs₁), hrest]
      cases hnext : rest with
      | nil => exact hself _ rfl
      | cons d rest' =>
        subst hnext
        rw [List.head?_cons]
        dsimp only
        split
        . -- a substitution
          obtain ⟨hs₂, hrest'⟩ := ahead_of_cons hs₁ hrest
          have h₂ : s.cursor.Took ['$', d] ((s.advance 1).advance 1).cursor :=
            h₁.trans (Took.of_eq_append hrest) hs
          rw [yields_bind, yields_advance]
          apply Yields.mono ((takes_substitution h hs₂).after h₂ hs)
          . rintro v s₃ ⟨used, _, h₃, hweighs⟩
            refine Or.inr ⟨['$', d] ++ used, by simp, h₃, fun hlight => ?_⟩
            apply Value.Weighs.mono (hweighs hlight)
            rw [Text.weight_append]
            omega
          . intro e s₃ he
            exact he
        . split
          . -- a variable
            have hindex := hs.nonneg
            have hle := hs.le_length
            have hbuffer : (s.advance 1).cursor.buffer =
                s.cursor.buffer.take s.cursor.index.toNat ++ '$' :: (s.advance 1).cursor.ahead := by
              rw [hrest, ← hahead]
              exact (List.take_append_drop _ _).symm
            have hplace : (s.advance 1).cursor.index =
                (s.cursor.buffer.take s.cursor.index.toNat).length + 1 := by
              simp only [State.advance_cursor, advance_index, List.length_take]
              omega
            apply Yields.mono ((takes_variableValue hs₁ hbuffer hplace).after h₁ hs)
            . rintro v s₃ ⟨used, _, h₃, hweighs⟩
              refine Or.inr ⟨['$'] ++ used, by simp, h₃, fun hlight => ?_⟩
              have hdollar : Text.weight ['$'] = 1 := rfl
              apply Value.Weighs.mono (hweighs hlight)
              rw [Text.weight_append, hdollar]
              omega
            . intro e s₃ he
              exact he
          . exact hself _ rfl
    . exact hself _ rfl

end Read

theorem takes_findCommand (registry : Registry Command) (h : evaluator.Sound)
    (hs : s.cursor.InText) :
    Takes (findCommand registry evaluator.unit) s fun used found =>
      ∀ command, found = some command → used ≠ [] ∧
        ∃ name, registry.lookup name = some command ∧
          (s.cursor.Light → name.weight ≤ used.weight) := by
  unfold findCommand
  apply Takes.bind (takes_spaces hs) hs
  intro before _ s₁ h₁ hs₁ _
  apply takes_index_bind
  have hstring : Takes (Read.string evaluator.unit {}) s₁ (StringPost s.cursor.Light) := by
    rw [← h₁.light_eq]
    exact takes_string {} hs₁ h.reader
  apply Takes.bind hstring hs₁
  intro used name s₂ h₂ hs₂ hname
  split
  . apply takes_pure
    intro command hcommand
    cases hcommand
  . next hne =>
    split
    . exact takes_fault_at hs₁ h₂.buffer_eq (by simp [Cause.kind])
    . next command hlookup =>
      apply takes_cursor_bind
      apply takes_trace_bind
      intro s₃ _
      apply takes_pure
      intro command' hcommand
      cases hcommand
      refine ⟨?_, name, hlookup, ?_⟩
      . -- an empty name is no command, and another one takes characters
        have := hname.1 (by simpa using hne)
        simp [this]
      . intro hlight
        have := hname.2 hlight
        simp only [Text.weight_append]
        omega

namespace Evaluator

/--
The evaluator that the commands found at the level above run with.
-/
def bodies (registry : Registry Command) (level : Nat) : Evaluator :=
  { ofLevel registry level with unit := Read.unit (ofLevel registry level) }

theorem sound_exhausted : exhausted.Sound where
  unit := fun _ _ => ⟨⟨[], Took.refl _⟩, trivial⟩
  command := fun _ _ => takes_throw trivial
  commands := fun _ _ => takes_throw trivial

theorem Sound.unit_above (h : evaluator.Sound) :
    Sound { evaluator with unit := Read.unit evaluator } where
  unit := fun _ hs => yields_unit h hs
  command := h.command
  commands := h.commands

theorem Sound.takes_command {registry : Registry Command} (hregistry : registry.Sound)
    (h : evaluator.Sound) (hs : s.cursor.InText) :
    Takes (above registry evaluator).command s (CommandPost s.cursor.Light) := by
  unfold above
  apply Takes.bind (takes_findCommand registry h.unit_above hs) hs
  intro used found s₁ h₁ hs₁ hfound
  split
  . apply takes_pure
    exact ⟨(fun hfinish => nomatch hfinish), trivial, fun _ => Value.weighs_finish _⟩
  . next command =>
    obtain ⟨hne, name, hlookup, hname⟩ := hfound command rfl
    apply Takes.mono (hregistry name command hlookup _ s₁ h.unit_above hs₁)
    rintro used' v ⟨hplain, hweighs⟩
    refine ⟨fun _ => by simp [hne], hplain, fun hlight => ?_⟩
    apply Value.Weighs.mono (hweighs (h₁.light_eq ▸ hlight))
    rw [Text.weight_append]
    omega

theorem Sound.above {registry : Registry Command} (hregistry : registry.Sound)
    (h : evaluator.Sound) : (above registry evaluator).Sound where
  unit := fun _ hs => yields_unit h hs
  command := fun _ hs => h.takes_command hregistry hs
  commands := by
    intro s hs
    apply Takes.bind (h.takes_command hregistry hs) hs
    intro used v s₁ h₁ hs₁ _
    split
    . exact takes_pure trivial
    . exact h.commands s₁ hs₁

theorem sound_ofLevel {registry : Registry Command} (hregistry : registry.Sound) (level : Nat) :
    (ofLevel registry level).Sound := by
  induction level with
  | zero => exact sound_exhausted
  | succ level ih => exact Sound.above hregistry ih

end Evaluator

end LineScript
