import LineScript.Proofs.Sound
import LineScript.Standard

/-!
This module contains the proof that the standard commands keep the contract of commands: each takes
its arguments off the text ahead, points at its own text if it stops with a fault, and gives a plain
value that weighs no more than its arguments.
-/

namespace LineScript

open Eval Cursor Read

variable {evaluator : Evaluator} {s : State}

def Cursor.IsOffset (c : Cursor) (offset : Int) : Prop :=
  ∃ used, used <+: c.ahead ∧ offset = (used.length : Int)

theorem yields_runElement {commands : Eval Unit} {name : Text} {element : Value}
    (hcommands : ∀ s' : State, s'.cursor.InText → Takes commands s' fun _ _ => True)
    (hs : s.cursor.InText) :
    Yields (runElement commands name element) s
      (fun offset s' => s'.cursor = s.cursor ∧ s.cursor.IsOffset offset)
      (fun e s' => s'.cursor = s.cursor ∧ e.Placed) := by
  have hassign : (s.cursor.assign name element).InText := ⟨hs.nonneg, hs.le_length⟩
  unfold runElement
  simp only [yields_bind, yields_cursor, yields_within]
  apply Yields.mono (hcommands { s with cursor := s.cursor.assign name element } hassign)
  . rintro _ s₁ ⟨used, htook, _⟩
    simp only [yields_index, yields_pure]
    have hoffset : s₁.cursor.index - s.cursor.index = used.length := by
      have : s₁.cursor.index = s.cursor.index + used.length := htook.index_eq
      omega
    apply yields_orFail
    . intro shown _
      apply yields_trace
      . intro log
        exact ⟨rfl, used, htook.isPrefix, hoffset⟩
      . intro log
        exact ⟨rfl, trivial⟩
    . intro _
      exact ⟨rfl, trivial⟩
  . rintro e s₁ ⟨_, he⟩
    exact ⟨trivial, he⟩

theorem yields_failUneven {α : Type} (first offset : Int) (iteration : Nat)
    {Q : α → State → Prop} {E : Stop → State → Prop} (hfailure : E (.failure .unprintable) s)
    (hfault : E (.fault ⟨.unevenIteration first offset iteration, some s.cursor.index,
      some s.cursor.buffer⟩) s) : Yields (failUneven first offset iteration) s Q E := by
  have hwrite : ∀ (i : Int) (Q : Text → State → Prop), (∀ t, Q t s) →
      Yields (orFail .unprintable (s.cursor.numeral? i)) s Q E := by
    intro i Q hQ
    apply yields_orFail
    . intro t _
      exact hQ t
    . intro _
      exact hfailure
  unfold failUneven
  simp only [yields_bind, yields_cursor, List.forIn_cons, List.forIn_nil, yields_discard,
    yields_pure, yields_raise]
  apply hwrite
  intro _
  apply hwrite
  intro _
  apply hwrite
  intro _
  exact hfault

theorem iterate.yields_go {commands : Eval Unit} {name : Text} (elements : Elements)
    (hcommands : ∀ s' : State, s'.cursor.InText → Takes commands s' fun _ _ => True)
    (left : Nat) (first : Option Int) (done : List Int) (hs : s.cursor.InText)
    (hdone : ∀ offset ∈ done, s.cursor.IsOffset offset) :
    Yields (go commands name elements left first done) s
      (fun offsets s' => s'.cursor = s.cursor ∧ ∀ offset ∈ offsets, s.cursor.IsOffset offset)
      (fun e s' => s'.cursor = s.cursor ∧ e.Placed) := by
  -- every run starts at the cursor of the loop and is brought back to it
  induction left generalizing first done s with
  | zero =>
    unfold go
    rw [yields_pure]
    exact ⟨rfl, fun offset h => hdone offset (List.mem_reverse.mp h)⟩
  | succ left ih =>
    unfold go
    simp only [yields_bind]
    apply Yields.mono (yields_runElement hcommands hs)
    . rintro offset s₁ ⟨hcursor, hoffset⟩
      have hs₁ : s₁.cursor.InText := hcursor ▸ hs
      split
      . rw [yields_bind, ← hcursor]
        apply yields_failUneven
        . exact ⟨rfl, trivial⟩
        . exact ⟨rfl, Fault.placed_of_inText hs₁ _ (by simp [Cause.kind])⟩
      . rw [← hcursor]
        apply ih _ _ hs₁
        intro o ho
        rw [hcursor]
        cases List.mem_cons.mp ho with
        | inl heq => exact heq ▸ hoffset
        | inr hmem => exact hdone o hmem
    . intro e s₁ he
      exact he

theorem takes_iterate {commands : Eval Unit} {name : Text} (elements : Elements)
    (hcommands : ∀ s' : State, s'.cursor.InText → Takes commands s' fun _ _ => True)
    (hs : s.cursor.InText) : Takes (iterate commands name elements) s fun _ _ => True := by
  unfold iterate
  apply Takes.bind_still (iterate.yields_go elements hcommands _ none [] hs (by simp))
  intro offsets s₁ hcursor hoffsets
  split
  . next offset hhead =>
    obtain ⟨used, hused, rfl⟩ := hoffsets offset (List.mem_of_mem_head? hhead)
    have hadvance : Takes (Eval.advance used.length) s₁ fun _ _ => True :=
      takes_of_eq rfl (hcursor ▸ hused) trivial
    apply Takes.bind hadvance (hcursor ▸ hs)
    intro _ _ _ _ _ _
    exact takes_pure trivial
  . exact takes_pure trivial

namespace Standard

theorem takes_range (h : evaluator.Sound) (hs : s.cursor.InText) :
    Takes (range evaluator) s (BodyPost s.cursor.Light) := by
  unfold range
  apply takes_index_bind
  apply Takes.bind (takes_int {} hs h.reader) hs
  intro used₁ start s₁ h₁ hs₁ _
  split
  . apply Takes.bind (takes_int {} hs₁ h.reader) hs₁
    intro used₂ stop s₂ h₂ hs₂ _
    apply takes_index_bind
    apply Takes.bind (takes_int {} hs₂ h.reader) hs₂
    intro used₃ step s₃ h₃ hs₃ _
    dsimp only
    split
    . exact takes_fault_at_bind hs₂ h₃.buffer_eq (by simp [Cause.kind])
    . split
      . exact takes_pure ⟨trivial, fun _ => Value.weighs_range _ _ _ _⟩
      . exact takes_pure ⟨trivial, fun _ => Value.weighs_range _ _ _ _⟩
  . exact takes_fault_at hs h₁.buffer_eq (by simp [Cause.kind])

theorem takes_say (h : evaluator.Sound) (hs : s.cursor.InText) :
    Takes (say evaluator) s (BodyPost s.cursor.Light) := by
  unfold say
  apply Takes.bind (takes_string _ hs h.reader) hs
  intro used message s₁ h₁ hs₁ _
  apply Takes.bind_still (P := fun _ => True)
  . rw [yields_emit]
    exact ⟨rfl, trivial⟩
  . intro _ s₂ _ _
    exact takes_pure ⟨trivial, fun _ => Value.weighs_null _⟩

theorem takes_emptyLoopWarnings : Takes (emptyLoopWarnings.forM (emit .stderr)) s fun used _ =>
    used = [] := by
  apply takes_of_still
  exact ⟨rfl, rfl⟩

theorem takes_forEach (h : evaluator.Sound) (hs : s.cursor.InText) :
    Takes (forEach evaluator) s (BodyPost s.cursor.Light) := by
  have hname : Takes (name false) s fun _ _ => True :=
    takes_of_eq (name_eq hs) (List.takeWhile_prefix _) trivial
  unfold forEach
  apply takes_index_bind
  apply Takes.bind hname hs
  intro _ loopName s₁ h₁ hs₁ _
  dsimp only
  split
  . exact takes_fault_at_bind hs h₁.buffer_eq (by simp [Cause.kind])
  . apply Takes.bind (takes_spaces hs₁) hs₁
    intro _ _ s₂ h₂ hs₂ _
    apply takes_index_bind
    apply Takes.bind (takes_string {} hs₂ h.reader) hs₂
    intro _ specifier s₃ h₃ hs₃ _
    split
    . apply takes_index_bind
      apply Takes.bind (h.command s₃ hs₃) hs₃
      intro _ v s₄ h₄ hs₄ _
      split
      . next elements helements =>
        apply takes_index_bind
        apply Takes.bind (takes_string {} hs₄ h.reader) hs₄
        intro _ action s₅ h₅ hs₅ _
        split
        . apply Takes.bind (takes_iterate elements h.commands hs₅) hs₅
          intro _ offsets s₆ h₆ hs₆ _
          split
          . apply Takes.bind takes_emptyLoopWarnings hs₆
            intro _ _ _ _ _ _
            exact takes_pure ⟨trivial, fun _ => Value.weighs_null _⟩
          . exact takes_pure ⟨trivial, fun _ => Value.weighs_null _⟩
        . exact takes_fault_at_bind hs₄ h₅.buffer_eq (by simp [Cause.kind])
      . apply Takes.bind (takes_orFail (R := fun used _ => used = []) fun _ _ => rfl) hs₄
        intro _ shown s₅ h₅ _ _
        exact takes_fault_at hs₃ (h₅.buffer_eq.trans h₄.buffer_eq) (by simp [Cause.kind])
    . exact takes_fault_at_bind hs₂ h₃.buffer_eq (by simp [Cause.kind])

theorem takes_block (h : evaluator.Sound) (hs : s.cursor.InText) :
    Takes (block evaluator) s (BodyPost s.cursor.Light) := by
  unfold block
  apply Takes.bind (takes_string blockOptions hs h.reader) hs
  intro used text s₁ h₁ hs₁ _
  apply takes_cursor_bind
  apply Takes.bind_still (P := fun _ => True)
  . rw [yields_within]
    apply Yields.mono (h.commands { s₁ with cursor := s₁.cursor.spawn text } (spawn_inText _ _))
    . intro _ s₂ _
      exact ⟨rfl, trivial⟩
    . rintro e s₂ ⟨_, he⟩
      exact ⟨rfl, he⟩
  . intro _ s₂ _ _
    exact takes_pure ⟨trivial, fun _ => Value.weighs_null _⟩

theorem takes_sleep (h : evaluator.Sound) (hs : s.cursor.InText) :
    Takes (sleep evaluator) s (BodyPost s.cursor.Light) := by
  unfold sleep
  apply takes_index_bind
  apply Takes.bind (takes_int {} hs h.reader) hs
  intro used duration s₁ h₁ hs₁ _
  split
  . next duration =>
    apply Takes.bind (takes_orFail (R := fun used _ => used = []) fun _ _ => rfl) hs₁
    intro _ seconds s₂ _ _ _
    apply Takes.bind_still (P := fun _ => True)
    . rw [yields_pause]
      exact ⟨rfl, trivial⟩
    . intro _ s₃ _ _
      exact takes_pure ⟨trivial, fun _ => Value.weighs_null _⟩
  . exact takes_fault_at hs h₁.buffer_eq (by simp [Cause.kind])

theorem takes_giveBack (h : evaluator.Sound) (hs : s.cursor.InText) :
    Takes (giveBack evaluator) s (BodyPost s.cursor.Light) := by
  unfold giveBack
  apply Takes.bind (takes_string {} hs h.reader) hs
  intro used text s₁ h₁ hs₁ htext
  apply takes_pure
  refine ⟨trivial, fun hlight => ?_⟩
  rw [List.append_nil, Value.weighs_text]
  exact htext.2 hlight

theorem registry_eq : registry =
    ⟨[("for".toList, ⟨"for".toList, forEach⟩), ("range".toList, ⟨"range".toList, range⟩),
      ("return".toList, ⟨"return".toList, giveBack⟩), ("say".toList, ⟨"say".toList, say⟩),
      ("sleep".toList, ⟨"sleep".toList, sleep⟩), (['{'], ⟨['{'], block⟩)]⟩ := rfl

theorem lookup_cases {name : Text} {command : Command} (h : registry.lookup name = some command) :
    (name = "for".toList ∧ command.body = forEach) ∨ (name = "range".toList ∧ command.body = range) ∨
      (name = "return".toList ∧ command.body = giveBack) ∨
      (name = "say".toList ∧ command.body = say) ∨ (name = "sleep".toList ∧ command.body = sleep) ∨
      (name = ['{'] ∧ command.body = block) := by
  have hmem := Table.mem_entries_of_find? h
  rw [registry_eq] at hmem
  simp only [List.mem_cons, Prod.mk.injEq, List.not_mem_nil, or_false] at hmem
  rcases hmem with h | h | h | h | h | h
  all_goals simp [h.1, h.2]

theorem label_of_lookup {name : Text} {command : Command} (h : registry.lookup name = some command) :
    command.label = name := by
  have hmem := Table.mem_entries_of_find? h
  rw [registry_eq] at hmem
  simp only [List.mem_cons, Prod.mk.injEq, List.not_mem_nil, or_false] at hmem
  rcases hmem with h | h | h | h | h | h
  all_goals simp [h.1, h.2]

theorem sound_registry : registry.Sound := by
  intro name command hlookup evaluator s h hs
  obtain ⟨-, hbody⟩ | ⟨-, hbody⟩ | ⟨-, hbody⟩ | ⟨-, hbody⟩ | ⟨-, hbody⟩ | ⟨-, hbody⟩ :=
    lookup_cases hlookup
  . exact hbody ▸ takes_forEach h hs
  . exact hbody ▸ takes_range h hs
  . exact hbody ▸ takes_giveBack h hs
  . exact hbody ▸ takes_say h hs
  . exact hbody ▸ takes_sleep h hs
  . exact hbody ▸ takes_block h hs

theorem sound_ofLevel (level : Nat) : (Evaluator.ofLevel registry level).Sound :=
  Evaluator.sound_ofLevel sound_registry level

end Standard

end LineScript
