import LineScript.Proofs.Settles
import LineScript.Proofs.Standard
import LineScript.Session

/-!
This module contains the proof that every run of the standard commands comes to an end. Substitutions
and blocks run text that is put together during the run, which may be longer than the text it comes
from, but never as heavy: the dollar sign or the brace that starts it is not part of it. So the
induction is on the weight of the text ahead, and inside one text on the length of the text ahead.
-/

namespace LineScript

open Eval Cursor Read

variable {s : State} {F : Nat → Evaluator} {w : Nat}

/--
Commands settle wherever the text ahead weighs at most `w` and has at most `l` characters.
-/
def CommandsSettle (F : Nat → Evaluator) (w l : Nat) : Prop :=
  ∀ s : State, s.cursor.Bounded w → s.cursor.ahead.length ≤ l →
    Settles (fun m => (F m).command) s ∧ Settles (fun m => (F m).commands) s

theorem CommandsSettle.assign {l : Nat} (h : CommandsSettle F w l) (hs : s.cursor.Bounded w)
    (hl : s.cursor.ahead.length ≤ l) {v : Value} (hv : v.Weighs 1) (name : Text) (s' : State) :
    Settles (fun m => (F m).commands) { s' with cursor := s.cursor.assign name v } := by
  have hs' : (s.cursor.assign name v).Bounded w :=
    ⟨⟨hs.inText.nonneg, hs.inText.le_length⟩, hs.light.assign hv, hs.weight_le⟩
  exact (h { s' with cursor := s.cursor.assign name v } hs' hl).2

namespace Read

theorem settles_substitution (hsound : ∀ m, (F m).Sound) (hunits : UnitsSettle F w)
    (hcommands : ∀ l, CommandsSettle F w l) (hs : s.cursor.Bounded w) :
    Settles (fun m => substitution (F m)) s := by
  unfold substitution
  apply settles_string_bind _ hsound hunits hs
  intro used text s₁ h₁ hs₁ htext
  apply (settles_trace _).bind_takes (fun _ => takes_trace) hs₁
  intro _ _ s₂ h₂ hs₂ _
  apply settles_cursor_bind
  have hweight : text.weight ≤ w := hs.weight_string_le h₁ htext
  apply Settles.bind (Settles.within (hcommands _ _ (.spawn hs₂.light hweight) (Nat.le_refl _)).1)
  intro _ v s₃ _
  cases v <;> exact settles_pure _

theorem settles_variableValue (hs : s.cursor.InText) : Settles (fun _ => variableValue) s := by
  unfold variableValue
  apply settles_index_bind
  apply Settles.bind_of_eq_ok (name_eq hs)
  apply settles_cursor_bind
  split
  . exact settles_pure _
  . exact settles_fault _ _

theorem settles_unit (hsound : ∀ m, (F m).Sound)
    (hdeep : ∀ v, v < w → UnitsSettle F v ∧ ∀ l, CommandsSettle F v l) (hs : s.cursor.Bounded w) :
    Settles (fun m => unit (F m)) s := by
  cases hahead : s.cursor.ahead with
  | nil => exact settles_of_eq_ok fun m => (verbatim_unit (F m)).nil s hs.inText hahead
  | cons c rest =>
    -- only a dollar sign runs anything
    by_cases hc : c = '$'
    . subst hc
      obtain ⟨hs₁, hrest⟩ := ahead_of_cons hs.inText hahead
      have h₁ : s.cursor.Took ['$'] (s.advance 1).cursor := Took.of_eq_append hahead
      unfold unit
      apply Settles.bind_of_eq_ok (char_eq hs.inText)
      rw [hahead]
      apply Settles.bind_of_eq_ok (peek_eq hs₁)
      rw [hrest]
      cases hnext : rest with
      | nil => exact settles_pure _
      | cons d rest' =>
        subst hnext
        by_cases hd : d = '{'
        . -- the dollar sign and the brace are gone when the text of the substitution is read
          subst hd
          have h₂ : s.cursor.Took ['$', '{'] ((s.advance 1).advance 1).cursor :=
            h₁.trans (Took.of_eq_append hrest) hs.inText
          have hopening : Text.weight ['$', '{'] = 2 := rfl
          have hw : 2 ≤ w := by
            have h := hs.weight_le
            rw [h₂.ahead_eq hs.inText, Text.weight_append, hopening] at h
            omega
          have hs₂ : ((s.advance 1).advance 1).cursor.Bounded (w - 2) := by
            apply hs.took h₂
            rw [hopening]
            omega
          obtain ⟨hunits, hcommands⟩ := hdeep (w - 2) (by omega)
          simp only [List.head?_cons, ↓reduceIte]
          apply settles_advance_bind
          exact settles_substitution hsound hunits hcommands hs₂
        . by_cases hname : Text.isNameChar d = true
          . simp only [List.head?_cons, hd, hname, ↓reduceIte]
            exact settles_variableValue hs₁
          . simp only [List.head?_cons, hd, hname, ↓reduceIte]
            exact settles_pure _
    . exact settles_of_eq_ok fun m =>
        (verbatim_unit (F m)).cons s c rest hs.inText hahead (by simpa using hc)

end Read

theorem settles_findCommand (registry : Registry Command) (hsound : ∀ m, (F m).Sound)
    (hunits : UnitsSettle F w) (hs : s.cursor.Bounded w) :
    Settles (fun m => findCommand registry (F m).unit) s := by
  unfold findCommand
  apply (settles_spaces hs.inText).bind_takes (fun _ => takes_spaces hs.inText) hs
  intro _ _ s₁ _ hs₁ _
  apply settles_index_bind
  apply settles_string_bind _ hsound hunits hs₁
  intro _ name s₂ _ _ _
  split
  . exact settles_pure _
  . split
    . exact settles_fault _ _
    . apply settles_cursor_bind
      apply Settles.bind (settles_trace _)
      intro _ _ s₃ _
      exact settles_pure _

theorem settles_runElement {name : Text} {element : Value}
    (hcommands : Settles (fun m => (F m).commands)
      { s with cursor := s.cursor.assign name element }) :
    Settles (fun m => runElement (F m).commands name element) s := by
  unfold runElement
  apply settles_cursor_bind
  apply Settles.bind
  . apply Settles.within
    apply Settles.bind hcommands
    intro _ _ s₁ _
    apply settles_index_bind
    exact settles_pure _
  . intro _ offset s₁ _
    apply Settles.bind (settles_orFail _ _)
    intro _ shown s₂ _
    apply Settles.bind (settles_trace _)
    intro _ _ s₃ _
    exact settles_pure _

theorem settles_failUneven {α : Type} (first offset : Int) (iteration : Nat) :
    Settles (fun _ => (failUneven first offset iteration : Eval α)) s := by
  apply settles_const
  apply yields_failUneven
  . simp
  . simp

theorem iterate.settles_go {name : Text} (elements : Elements) (hsound : ∀ m, (F m).Sound)
    (left : Nat) (first : Option Int) (done : List Int) (hs : s.cursor.InText)
    (hcommands : ∀ (k : Nat) (s' : State), s'.cursor = s.cursor →
      Settles (fun m => (F m).commands)
        { s' with cursor := s.cursor.assign name (elements.get k) }) :
    Settles (fun m => go (F m).commands name elements left first done) s := by
  induction left generalizing first done s with
  | zero =>
    unfold go
    exact settles_pure _
  | succ left ih =>
    unfold go
    apply Settles.bind (settles_runElement (hcommands _ s rfl))
    intro m offset s₁ hrun
    have hcursor := (Yields.of_ok (yields_runElement (hsound m).commands hs) hrun).1
    dsimp only
    split
    . apply Settles.bind (settles_failUneven _ _ _)
      intro m' _ s₂ hfail
      exact (Yields.of_ok (Q := fun _ _ => False) (E := fun _ _ => True)
        (yields_failUneven _ _ _ trivial trivial) hfail).elim
    . apply ih _ _ (hcursor ▸ hs)
      intro k s' hs'
      rw [hcursor]
      exact hcommands k s' (hs'.trans hcursor)

theorem settles_iterate (name : Text) (elements : Elements) (hsound : ∀ m, (F m).Sound)
    (hcommands : ∀ (k : Nat) (s' : State), s'.cursor = s.cursor →
      Settles (fun m => (F m).commands)
        { s' with cursor := s.cursor.assign name (elements.get k) }) (hs : s.cursor.InText) :
    Settles (fun m => iterate (F m).commands name elements) s := by
  unfold iterate
  apply Settles.bind (iterate.settles_go elements hsound _ none [] hs hcommands)
  intro _ offsets s₁ _
  split
  . apply settles_advance_bind
    exact settles_pure _
  . exact settles_pure _

namespace Standard

theorem settles_range (hsound : ∀ m, (F m).Sound) (hunits : UnitsSettle F w)
    (hs : s.cursor.Bounded w) : Settles (fun m => range (F m)) s := by
  unfold range
  apply settles_index_bind
  apply settles_int_bind _ hsound hunits hs
  intro start s₁ hs₁
  cases start with
  | none => exact settles_fault _ _
  | some start =>
    apply settles_int_bind _ hsound hunits hs₁
    intro stop s₂ hs₂
    apply settles_index_bind
    apply settles_int_bind _ hsound hunits hs₂
    intro step s₃ _
    dsimp only
    split
    . exact settles_fault_bind _ _
    . cases stop <;> exact settles_pure _

theorem settles_say (hsound : ∀ m, (F m).Sound) (hunits : UnitsSettle F w)
    (hs : s.cursor.Bounded w) : Settles (fun m => say (F m)) s := by
  unfold say
  apply settles_string_bind _ hsound hunits hs
  intro _ message s₁ _ _ _
  apply Settles.bind (settles_emit _ _)
  intro _ _ s₂ _
  exact settles_pure _

theorem settles_sleep (hsound : ∀ m, (F m).Sound) (hunits : UnitsSettle F w)
    (hs : s.cursor.Bounded w) : Settles (fun m => sleep (F m)) s := by
  unfold sleep
  apply settles_index_bind
  apply settles_int_bind _ hsound hunits hs
  intro duration s₁ _
  cases duration with
  | none => exact settles_fault _ _
  | some duration =>
    apply Settles.bind (settles_orFail _ _)
    intro _ seconds s₂ _
    apply Settles.bind (settles_pause _)
    intro _ _ s₃ _
    exact settles_pure _

theorem settles_giveBack (hsound : ∀ m, (F m).Sound) (hunits : UnitsSettle F w)
    (hs : s.cursor.Bounded w) : Settles (fun m => giveBack (F m)) s := by
  unfold giveBack
  apply settles_string_bind _ hsound hunits hs
  intro _ text s₁ _ _ _
  exact settles_pure _

theorem settles_block (hsound : ∀ m, (F m).Sound) (hunits : UnitsSettle F w)
    (hcommands : ∀ l, CommandsSettle F w l) (hs : s.cursor.Bounded w) :
    Settles (fun m => block (F m)) s := by
  unfold block
  apply settles_string_bind _ hsound hunits hs
  intro used text s₁ h₁ hs₁ htext
  apply settles_cursor_bind
  have hweight : text.weight ≤ w := hs.weight_string_le h₁ htext
  apply Settles.bind (Settles.within (hcommands _ _ (.spawn hs₁.light hweight) (Nat.le_refl _)).2)
  intro _ _ s₂ _
  exact settles_pure _

theorem settles_emptyLoopWarnings :
    Settles (fun _ => emptyLoopWarnings.forM (emit .stderr)) s :=
  settles_of_eq_ok fun _ => rfl

theorem settles_forEach (hsound : ∀ m, (F m).Sound) (hunits : UnitsSettle F w)
    (hcommands : CommandsSettle F w s.cursor.ahead.length) (hs : s.cursor.Bounded w) :
    Settles (fun m => forEach (F m)) s := by
  -- no step makes the text ahead longer, so `hcommands` covers the iterable and the body
  have hname : Takes (name false) s fun _ _ => True :=
    takes_of_eq (name_eq hs.inText) (List.takeWhile_prefix _) trivial
  unfold forEach
  apply settles_index_bind
  apply (settles_of_eq_ok fun _ => name_eq hs.inText).bind_takes (fun _ => hname) hs
  intro _ loopName s₁ h₁ hs₁ _
  have hlen₁ := h₁.length_le hs.inText
  dsimp only
  split
  . exact settles_fault_bind _ _
  . apply (settles_spaces hs₁.inText).bind_takes (fun _ => takes_spaces hs₁.inText) hs₁
    intro _ _ s₂ h₂ hs₂ _
    have hlen₂ := h₂.length_le hs₁.inText
    apply settles_index_bind
    apply settles_string_bind _ hsound hunits hs₂
    intro _ specifier s₃ h₃ hs₃ _
    have hlen₃ := h₃.length_le hs₂.inText
    split
    . apply settles_index_bind
      apply (hcommands s₃ hs₃ (by omega)).1.bind_takes (fun m => (hsound m).command s₃ hs₃.inText) hs₃
      intro _ v s₄ h₄ hs₄ hv
      have hlen₄ := h₄.length_le hs₃.inText
      cases helements : v.elements? with
      | none =>
        apply Settles.bind (settles_orFail _ _)
        intro _ _ _ _
        exact settles_fault _ _
      | some elements =>
        apply settles_index_bind
        apply settles_string_bind _ hsound hunits hs₄
        intro _ action s₅ h₅ hs₅ _
        have hlen₅ := h₅.length_le hs₄.inText
        split
        . apply Settles.bind (settles_iterate _ _ hsound _ hs₅.inText)
          . intro _ offsets s₆ _
            split
            . apply Settles.bind settles_emptyLoopWarnings
              intro _ _ s₇ _
              exact settles_pure _
            . exact settles_pure _
          . intro k s₆ _
            exact hcommands.assign hs₅ (by omega) (hv.2.1.weighs_get helements k) loopName s₆
        . exact settles_fault_bind _ _
    . exact settles_fault_bind _ _

end Standard

namespace Evaluator

theorem sound_bodies (level : Nat) : (bodies Standard.registry level).Sound :=
  (Standard.sound_ofLevel level).unit_above

theorem settles_command {l : Nat}
    (hdeep : ∀ v, v < w → UnitsSettle (ofLevel Standard.registry) v ∧
      ∀ l, CommandsSettle (ofLevel Standard.registry) v l)
    (hshort : ∀ k, k < l → CommandsSettle (ofLevel Standard.registry) w k)
    (hs : s.cursor.Bounded w) (hl : s.cursor.ahead.length ≤ l) :
    Settles (fun m => (ofLevel Standard.registry m).command) s := by
  have hunits : ∀ v, v ≤ w → UnitsSettle (bodies Standard.registry) v := by
    intro v hv s' hs'
    exact settles_unit Standard.sound_ofLevel (fun u hu => hdeep u (by omega)) hs'
  apply Settles.of_succ
  apply (settles_findCommand _ sound_bodies (hunits w (Nat.le_refl w)) hs).bind_takes
    (fun m => takes_findCommand _ (sound_bodies m) hs.inText) hs
  intro used found s₁ h₁ hs₁ hfound
  cases found with
  | none => exact settles_pure _
  | some command =>
    obtain ⟨hne, name, hlookup, hname⟩ := hfound command rfl
    have hlen : s₁.cursor.ahead.length < l :=
      Nat.lt_of_lt_of_le (h₁.length_lt hs.inText hne) hl
    obtain ⟨-, hbody⟩ | ⟨-, hbody⟩ | ⟨-, hbody⟩ | ⟨-, hbody⟩ | ⟨-, hbody⟩ | ⟨rfl, hbody⟩ :=
      Standard.lookup_cases hlookup
    all_goals simp only [hbody]
    . exact Standard.settles_forEach sound_bodies (hunits w (Nat.le_refl w)) (hshort _ hlen) hs₁
    . exact Standard.settles_range sound_bodies (hunits w (Nat.le_refl w)) hs₁
    . exact Standard.settles_giveBack sound_bodies (hunits w (Nat.le_refl w)) hs₁
    . exact Standard.settles_say sound_bodies (hunits w (Nat.le_refl w)) hs₁
    . exact Standard.settles_sleep sound_bodies (hunits w (Nat.le_refl w)) hs₁
    . -- the text of a block may be as heavy as what is ahead of it, but its name has a weight
      have hbrace : 1 ≤ used.weight := hname hs.light
      have hw : used.weight ≤ w := by
        have hle := hs.weight_le
        rw [h₁.ahead_eq hs.inText, Text.weight_append] at hle
        omega
      have hs₁' : s₁.cursor.Bounded (w - 1) := hs.took h₁ (by omega)
      exact Standard.settles_block sound_bodies (hunits (w - 1) (by omega))
        (hdeep (w - 1) (by omega)).2 hs₁'

theorem settles_ofLevel (w : Nat) :
    UnitsSettle (ofLevel Standard.registry) w ∧
      ∀ l, CommandsSettle (ofLevel Standard.registry) w l := by
  -- a text that is spawned is lighter than the one it comes from, and the commands of one text
  -- have ever less of it ahead
  induction w using Nat.strongRecOn with
  | ind w ihw =>
    constructor
    . intro s hs
      apply Settles.of_succ
      exact settles_unit Standard.sound_ofLevel ihw hs
    . intro l
      induction l using Nat.strongRecOn with
      | ind l ihl =>
        intro s hs hl
        have hcommand := settles_command ihw ihl hs hl
        refine ⟨hcommand, ?_⟩
        apply Settles.of_succ
        apply hcommand.succ.bind_takes (fun m => (Standard.sound_ofLevel (m + 1)).command s hs.inText) hs
        intro used v s₁ h₁ hs₁ hpost
        cases hfinish : v.isFinish with
        | true => exact settles_pure _
        | false =>
          have hlen : s₁.cursor.ahead.length < l :=
            Nat.lt_of_lt_of_le (h₁.length_lt hs.inText (hpost.1 hfinish)) hl
          exact (ihl _ hlen s₁ hs₁ (Nat.le_refl _)).2

end Evaluator

/--
Every line comes to an end. From some level on there is a report, and it does not depend on the level.
-/
theorem Session.run?_halts (session : Session) (source : Text) :
    ∃ (level : Nat) (report : Report) (log : Log), ∀ m, level ≤ m →
      { session with registry := Standard.registry, level := m }.run? source =
        some (report, { session with registry := Standard.registry, level := m, log }) := by
  have hstart : (session.start source).cursor.Bounded source.weight := by
    apply Bounded.spawn (c := { buffer := [] }) _ (Nat.le_refl _)
    intro name v h
    cases h
  obtain ⟨level, result, hresult, hne⟩ :=
    ((Evaluator.settles_ofLevel source.weight).2 _ _ hstart (Nat.le_refl _)).2
  refine ⟨level, ?_⟩
  have hrun : ∀ m, level ≤ m →
      { session with registry := Standard.registry, level := m }.evaluator.commands
        ({ session with registry := Standard.registry, level := m }.start source) = result :=
    fun m hm => hresult m hm
  cases result with
  | ok _ s =>
    refine ⟨.success (session.newEvents s.log).effects, s.log, ?_⟩
    intro m hm
    unfold run?
    rw [hrun m hm]
    rfl
  | error stop s =>
    cases hproblem : problem? s.cursor stop with
    | none =>
      cases stop with
      | exhausted => exact absurd rfl (hne s)
      | fault fault => cases hproblem
      | failure failure => cases hproblem
    | some problem =>
      refine ⟨.failure (session.newEvents s.log).effects problem, s.log, ?_⟩
      intro m hm
      unfold run?
      rw [hrun m hm]
      simp only [hproblem, Option.map_some]
      rfl

end LineScript
