import LineScript.Proofs.Agreement
import LineScript.Proofs.Bounds
import Mathlib.Logic.Relation

/-!
This module contains what happens to the units that a read looks at and gives back. To look at a unit
is to take it, and a substitution is run when it is taken. If the unit is given back, the cursor moves
back to its start; what was run stays done, and is done again by the next read that comes there.
-/

namespace LineScript

open Cursor

namespace Read

open Eval

/--
The reader takes a unit that has a value.
-/
def UnitStep (reader : Eval Value) (s s' : State) : Prop := ∃ v, v ≠ .null ∧ reader s = .ok v s'

/--
The reader takes units one after another.
-/
abbrev UnitSteps (reader : Eval Value) : State → State → Prop := Relation.ReflTransGen (UnitStep reader)

/--
A read that was started in `s` and came to its end in `s'` took the units up to `taken`. It looked at
the units from there up to `looked`, which stand in the text `back`, and gave them back. All that they
did stays done, but they did nothing unless one of them is a substitution.
-/
structure Leaves (reader : Eval Value) (s taken looked s' : State) (back : Text) : Prop where
  steps_taken : UnitSteps reader s taken
  steps_looked : UnitSteps reader taken looked
  took_back : taken.cursor.Took back looked.cursor
  eq_looked : s' = { looked with cursor := taken.cursor }
  log_eq : ¬ ['$', '{'] <:+: back → s'.log = taken.log

/--
What is asked of a reader: a character that is no dollar sign stands for itself, nothing happens if
there is no value, and a unit is a part of the text ahead that leaves no event unless it starts a
substitution.
-/
structure TakesUnits (reader : Eval Value) : Prop where
  plain : ∀ s c rest, s.cursor.InText → s.cursor.ahead = c :: rest → c ≠ '$' →
    reader s = .ok (.text [c]) (s.advance 1)
  null : ∀ s s', s.cursor.InText → reader s = .ok .null s' → ∃ n, s' = s.advance n
  value : ∀ s v s', s.cursor.InText → reader s = .ok v s' → v ≠ .null →
    ∃ used, used ≠ [] ∧ s.cursor.Took used s'.cursor ∧ (¬ ['$', '{'] <+: used → s'.log = s.log)

theorem takesUnits_rawUnit : TakesUnits rawUnit where
  plain := fun s c rest hs hahead _ => verbatim_rawUnit.cons s c rest hs hahead rfl
  null := by
    intro s s' hs hnull
    cases hahead : s.cursor.ahead with
    | nil =>
      rw [verbatim_rawUnit.nil s hs hahead] at hnull
      cases hnull
      exact ⟨1, rfl⟩
    | cons c rest =>
      rw [verbatim_rawUnit.cons s c rest hs hahead rfl] at hnull
      cases hnull
  value := by
    intro s v s' hs hvalue hne
    cases hahead : s.cursor.ahead with
    | nil =>
      rw [verbatim_rawUnit.nil s hs hahead] at hvalue
      cases hvalue
      exact absurd rfl hne
    | cons c rest =>
      rw [verbatim_rawUnit.cons s c rest hs hahead rfl] at hvalue
      cases hvalue
      exact ⟨[c], List.cons_ne_nil c [], Took.of_eq_append hahead, fun _ => rfl⟩

section Unit

variable {evaluator : Evaluator} {s s' : State} {v : Value}

theorem ne_null_of_substitution (h : substitution evaluator s = .ok v s') : v ≠ .null := by
  have hyields : Yields (substitution evaluator) s (fun v _ => v ≠ .null) fun _ _ => True := by
    unfold substitution
    simp only [yields_bind, yields_cursor]
    refine yields_of_forall ?_ fun _ _ => trivial
    intro t s₁
    refine yields_of_forall ?_ fun _ _ => trivial
    intro _ s₂
    refine yields_of_forall ?_ fun _ _ => trivial
    intro v s₃
    split
    . intro hnull
      cases hnull
    . intro hnull
      cases hnull
    . next hnull => exact hnull
  exact hyields.of_ok h

theorem yields_variableValue (hs : s.cursor.InText) :
    Yields variableValue s
      (fun _ s' => ∃ name, name <+: s.cursor.ahead ∧ s' = s.advance name.length)
      (fun _ _ => True) := by
  unfold variableValue
  rw [yields_bind, yields_index, yields_bind, yields_of_eq_ok (name_eq hs), yields_bind, yields_cursor]
  split
  . exact ⟨_, List.takeWhile_prefix _, rfl⟩
  . trivial

/--
What a unit can be: a place without a value, a part of the text that only moves the cursor, or a
substitution.
-/
theorem yields_unit_cases (evaluator : Evaluator) (hs : s.cursor.InText) :
    Yields (unit evaluator) s
      (fun v s' => (v = .null ∧ s' = s.advance 1) ∨
        (∃ used, used ≠ [] ∧ used <+: s.cursor.ahead ∧ s' = s.advance used.length) ∨
        ∃ rest, s.cursor.ahead = '$' :: '{' :: rest ∧
          substitution evaluator ((s.advance 1).advance 1) = .ok v s')
      (fun _ _ => True) := by
  unfold unit
  rw [yields_bind, yields_of_eq_ok (char_eq hs)]
  cases hahead : s.cursor.ahead with
  | nil => exact Or.inl ⟨rfl, rfl⟩
  | cons c rest =>
    obtain ⟨hs₁, hrest⟩ := ahead_of_cons hs hahead
    have hself : ∃ used, used ≠ [] ∧ used <+: c :: rest ∧ s.advance 1 = s.advance used.length :=
      ⟨[c], List.cons_ne_nil c [], List.prefix_append [c] rest, rfl⟩
    rw [List.head?_cons]
    split
    . next heq =>
      cases heq
      rw [yields_bind, yields_of_eq_ok (peek_eq hs₁), hrest]
      cases rest with
      | nil => exact Or.inr (Or.inl hself)
      | cons d rest =>
        rw [List.head?_cons]
        dsimp only
        split
        . next hbrace =>
          subst hbrace
          rw [yields_bind, yields_advance]
          unfold Yields
          split
          . next v s' hok => exact Or.inr (Or.inr ⟨rest, rfl, hok⟩)
          . trivial
        . split
          . apply Yields.mono (yields_variableValue hs₁)
            . rintro v _ ⟨name, hname, rfl⟩
              rw [hrest] at hname
              refine Or.inr (Or.inl ⟨'$' :: name, List.cons_ne_nil _ _, ?_, ?_⟩)
              . exact List.cons_prefix_cons.mpr ⟨rfl, hname⟩
              . rw [State.advance_advance, List.length_cons]
                congr 1
                omega
            . exact fun _ _ _ => trivial
          . exact Or.inr (Or.inl hself)
    . exact Or.inr (Or.inl hself)

theorem takesUnits_unit (h : evaluator.Sound) : TakesUnits (unit evaluator) where
  plain := fun s c rest hs hahead hc =>
    (verbatim_unit evaluator).cons s c rest hs hahead (bne_iff_ne.mpr hc)
  null := by
    intro s s' hs hnull
    obtain ⟨-, hend⟩ | ⟨used, -, -, hused⟩ | ⟨rest, -, hrun⟩ :=
      (yields_unit_cases evaluator hs).of_ok hnull
    . exact ⟨1, hend⟩
    . exact ⟨used.length, hused⟩
    . exact absurd rfl (ne_null_of_substitution hrun)
  value := by
    intro s v s' hs hvalue hne
    obtain ⟨hnull, -⟩ | ⟨used, hused, hahead, rfl⟩ | ⟨rest, hahead, hrun⟩ :=
      (yields_unit_cases evaluator hs).of_ok hvalue
    . exact absurd hnull hne
    . exact ⟨used, hused, ⟨hahead, rfl⟩, fun _ => rfl⟩
    . obtain ⟨hs₁, hrest⟩ := ahead_of_cons hs hahead
      obtain ⟨hs₂, -⟩ := ahead_of_cons hs₁ hrest
      have hdollar : s.cursor.Took ['$'] (s.advance 1).cursor := Took.of_eq_append hahead
      have hopen : s.cursor.Took ['$', '{'] ((s.advance 1).advance 1).cursor :=
        hdollar.trans (Took.of_eq_append hrest) hs
      obtain ⟨used, -, htook, -⟩ := ((takes_substitution h hs₂).after hopen hs).of_ok hrun
      refine ⟨['$', '{'] ++ used, List.cons_ne_nil _ _, htook, ?_⟩
      exact fun hnot => absurd (List.prefix_append _ _) hnot

end Unit

section Steps

variable {reader : Eval Value} {s s₁ s' : State}

/--
The units that are taken are a part of the text ahead, and if no substitution is in it then nothing
happens.
-/
theorem UnitSteps.exists_took (hreader : TakesUnits reader) (h : UnitSteps reader s s')
    (hs : s.cursor.InText) :
    ∃ used, s.cursor.Took used s'.cursor ∧ (¬ ['$', '{'] <:+: used → s'.log = s.log) := by
  induction h with
  | refl => exact ⟨[], Took.refl s.cursor, fun _ => rfl⟩
  | tail _ hstep ih =>
    obtain ⟨used, htook, hlog⟩ := ih
    obtain ⟨v, hne, hv⟩ := hstep
    obtain ⟨last, -, htook', hlog'⟩ := hreader.value _ v _ (htook.inText hs) hv hne
    refine ⟨used ++ last, htook.trans htook' hs, ?_⟩
    intro hnot
    rw [hlog' fun hlast => hnot (hlast.isInfix.trans (List.suffix_append used last).isInfix),
      hlog fun hused => hnot (hused.trans (List.prefix_append used last).isInfix)]

theorem UnitSteps.inText (hreader : TakesUnits reader) (h : UnitSteps reader s s')
    (hs : s.cursor.InText) : s'.cursor.InText := by
  obtain ⟨used, htook, -⟩ := h.exists_took hreader hs
  exact htook.inText hs

/--
Every unit takes characters, so nothing was taken if the cursor did not move.
-/
theorem UnitSteps.eq_of_index_eq (hreader : TakesUnits reader) (h : UnitSteps reader s s')
    (hs : s.cursor.InText) (hsame : s'.cursor.index = s.cursor.index) : s' = s := by
  obtain rfl | ⟨first, ⟨v, hne, hv⟩, hrest⟩ := h.cases_head
  . rfl
  . obtain ⟨used, hused, htook, -⟩ := hreader.value s v first hs hv hne
    obtain ⟨used', htook', -⟩ := UnitSteps.exists_took hreader hrest (htook.inText hs)
    have hpos := List.length_pos_iff.mpr hused
    have hindex := (htook.trans htook' hs).index_eq
    rw [hsame, List.length_append] at hindex
    omega

theorem unitStep_plain (hreader : TakesUnits reader) {c : Char} {rest : Text} (hs : s.cursor.InText)
    (hahead : s.cursor.ahead = c :: rest) (hc : c ≠ '$') : UnitStep reader s s' ↔ s' = s.advance 1 := by
  have hplain := hreader.plain s c rest hs hahead hc
  constructor
  . rintro ⟨v, -, hv⟩
    rw [hplain] at hv
    cases hv
    rfl
  . rintro rfl
    exact ⟨.text [c], nofun, hplain⟩

theorem unitSteps_token (hreader : TakesUnits reader) {c : Char} (hc : c ≠ '$') (hs : s.cursor.InText) :
    Yields (token [c]) s (fun _ s' => UnitSteps reader s s') (fun _ _ => False) := by
  have htoken := token_eq hs [c]
  split at htoken
  . next hprefix =>
    obtain ⟨rest, hrest⟩ := hprefix
    rw [yields_of_eq_ok htoken]
    exact .single ((unitStep_plain hreader hs hrest.symm hc).mpr rfl)
  . rw [yields_of_eq_ok htoken]

/--
The units up to `s'` were taken, or they were taken and one more was looked at.
-/
def Stopped (reader : Eval Value) (s s' : State) : Prop :=
  ∃ taken looked, UnitSteps reader s taken ∧ Relation.ReflGen (UnitStep reader) taken looked ∧
    s' = { looked with cursor := taken.cursor }

/--
The units up to `s'` were taken, and some more were looked at.
-/
def Looked (reader : Eval Value) (s s' : State) : Prop :=
  ∃ taken looked, UnitSteps reader s taken ∧ UnitSteps reader taken looked ∧
    s' = { looked with cursor := taken.cursor }

theorem UnitSteps.stopped (h : UnitSteps reader s s') : Stopped reader s s' :=
  ⟨s', s', h, .refl, rfl⟩

theorem UnitSteps.looked (h : UnitSteps reader s s') : Looked reader s s' :=
  ⟨s', s', h, .refl, rfl⟩

theorem Stopped.looked (h : Stopped reader s s') : Looked reader s s' := by
  obtain ⟨taken, looked, htaken, hlooked, rfl⟩ := h
  exact ⟨taken, looked, htaken, hlooked.to_reflTransGen, rfl⟩

theorem Stopped.after (h : Stopped reader s₁ s') (hsteps : UnitSteps reader s s₁) :
    Stopped reader s s' := by
  obtain ⟨taken, looked, htaken, hlooked, rfl⟩ := h
  exact ⟨taken, looked, hsteps.trans htaken, hlooked, rfl⟩

theorem Looked.after (h : Looked reader s₁ s') (hsteps : UnitSteps reader s s₁) :
    Looked reader s s' := by
  obtain ⟨taken, looked, htaken, hlooked, rfl⟩ := h
  exact ⟨taken, looked, hsteps.trans htaken, hlooked, rfl⟩

theorem Looked.inText (hreader : TakesUnits reader) (h : Looked reader s s') (hs : s.cursor.InText) :
    s'.cursor.InText := by
  obtain ⟨taken, looked, htaken, -, rfl⟩ := h
  have hin := htaken.inText hreader hs
  exact hin

/--
A unit that was looked at and stands for itself did nothing.
-/
theorem Stopped.exact (hreader : TakesUnits reader) (h : Stopped reader s s')
    (hs' : s'.cursor.InText) {c : Char} {rest : Text} (hahead : s'.cursor.ahead = c :: rest)
    (hc : c ≠ '$') : UnitSteps reader s s' := by
  obtain ⟨taken, looked, htaken, hlooked, rfl⟩ := h
  cases hlooked with
  | refl => exact htaken
  | single hstep =>
    obtain rfl := (unitStep_plain (s := taken) hreader hs' hahead hc).mp hstep
    exact htaken

/--
The states that have `P` are closed under taking a character that stands for itself.
-/
def TakesPlain (P : State → Prop) : Prop :=
  ∀ s c rest, P s → s.cursor.InText → s.cursor.ahead = c :: rest → c ≠ '$' → P (s.advance 1)

theorem takesPlain_unitSteps (hreader : TakesUnits reader) (s : State) :
    TakesPlain (UnitSteps reader s) :=
  fun _ _ _ h hs' hahead hc => h.tail ((unitStep_plain hreader hs' hahead hc).mpr rfl)

theorem takesPlain_stopped (hreader : TakesUnits reader) (s : State) :
    TakesPlain (Stopped reader s) := by
  intro s' c rest h hs' hahead hc
  have hexact := h.exact hreader hs' hahead hc
  exact (takesPlain_unitSteps hreader s s' c rest hexact hs' hahead hc).stopped

theorem takesPlain_looked (hreader : TakesUnits reader) (s : State) :
    TakesPlain (Looked reader s) := by
  rintro _ c rest ⟨taken, looked, htaken, hlooked, rfl⟩ hs' hahead hc
  have hplain : ∀ t, UnitStep reader taken t ↔ t = taken.advance 1 := fun t =>
    unitStep_plain hreader hs' hahead hc
  have hnext : UnitSteps reader s (taken.advance 1) := htaken.tail ((hplain _).mpr rfl)
  -- whatever else was looked at comes after the character
  obtain rfl | ⟨first, hstep, hrest⟩ := hlooked.cases_head
  . exact hnext.looked
  . obtain rfl := (hplain first).mp hstep
    exact ⟨taken.advance 1, looked, hnext, hrest, rfl⟩

theorem TakesPlain.advance {P : State → Prop} (hP : TakesPlain P) {used rest : Text} (h : P s)
    (hs : s.cursor.InText) (hahead : s.cursor.ahead = used ++ rest) (hused : '$' ∉ used) :
    P (s.advance used.length) := by
  induction used generalizing s with
  | nil => simpa using h
  | cons c used ih =>
    obtain ⟨hc, hused⟩ := not_or.mp (List.mem_cons.not.mp hused)
    obtain ⟨hs₁, hrest⟩ := ahead_of_cons hs hahead
    have hall := ih (hP s c _ h hs hahead (Ne.symm hc)) hs₁ hrest hused
    rw [State.advance_advance] at hall
    rwa [List.length_cons, Int.natCast_add, Int.add_comm]

theorem TakesPlain.started {P : State → Prop} (hP : TakesPlain P) (options : Options) (h : P s)
    (hs : s.cursor.InText) : P (options.started s) := by
  unfold Options.started Options.skipped
  split
  . apply hP.advance h hs List.takeWhile_append_dropWhile.symm
    intro hmem
    exact absurd (List.mem_takeWhile_imp hmem) (by decide)
  . exact h

theorem Looked.moveTo (hreader : TakesUnits reader) (h : Looked reader s s') (hs : s.cursor.InText) :
    Looked reader s { s' with cursor := s'.cursor.moveTo s.cursor.index } := by
  obtain ⟨taken, looked, htaken, hlooked, rfl⟩ := h
  obtain ⟨used, htook, -⟩ := htaken.exists_took hreader hs
  refine ⟨s, looked, .refl, htaken.trans hlooked, ?_⟩
  simp only [htook.eq_advance]
  rfl

end Steps

section Reads

variable {reader : Eval Value} {s s' : State} {σ : Type}

theorem stopped_scan (hreader : TakesUnits reader) (judge : σ → Text → Verdict σ) (start : σ)
    (hs : s.cursor.InText) :
    Yields (scan reader judge start) s (fun _ s' => Stopped reader s s') (fun _ _ => True) := by
  unfold scan
  rw [yields_bind, yields_cursor]
  generalize s.cursor.remaining + 1 = budget
  induction budget generalizing s start with
  | zero => trivial
  | succ budget ih =>
    unfold scan.go
    rw [yields_bind, yields_index, yields_bind]
    cases hunit : reader s with
    | error e s₁ =>
      unfold Yields
      rw [hunit]
      trivial
    | ok v s₁ =>
      rw [yields_of_eq_ok hunit]
      split
      . -- no value: nothing happened, and the cursor moves back to where it was
        obtain ⟨n, rfl⟩ := hreader.null s s₁ hs hunit
        exact UnitSteps.stopped .refl
      . next hne =>
        have hstep : UnitStep reader s s₁ := ⟨v, hne, hunit⟩
        obtain ⟨used, -, htook, -⟩ := hreader.value s v s₁ hs hunit hne
        rw [yields_bind]
        refine yields_orFail ?_ fun _ => trivial
        intro t _
        split
        . apply Yields.mono (ih _ (htook.inText hs))
          . intro _ s₂ hstopped
            exact hstopped.after (.single hstep)
          . exact fun _ _ _ => trivial
        . exact UnitSteps.stopped (.single hstep)
        . -- the unit that ends the read was taken, and the cursor moves back in front of it
          refine ⟨s, s₁, .refl, .single hstep, ?_⟩
          simp only [htook.eq_advance]
          rfl
        . trivial

theorem stopped_string (hreader : TakesUnits reader) (options : StringOptions)
    (hs : s.cursor.InText) :
    Yields (string reader options) s (fun _ s' => Stopped reader s s') (fun _ _ => True) := by
  have hstart : UnitSteps reader s (options.started s) :=
    (takesPlain_unitSteps hreader s).started _ .refl hs
  have hs₁ := hstart.inText hreader hs
  have hmatcher : Yields options.matcher (options.started s)
      (fun _ s' => UnitSteps reader s s') (fun _ _ => True) := by
    unfold StringOptions.matcher
    split
    . exact hstart
    . rw [yields_bind]
      apply Yields.mono (unitSteps_token hreader (by decide) hs₁)
      . exact fun _ _ h => hstart.trans h
      . exact fun _ _ h => h.elim
  unfold string
  rw [yields_bind, yields_of_eq_ok (options_spaces_eq _ hs), yields_bind]
  refine hmatcher.mono ?_ fun _ _ _ => trivial
  intro stop s₂ hsteps
  have hs₂ := hsteps.inText hreader hs
  rw [yields_bind]
  refine (stopped_scan hreader _ _ hs₂).mono ?_ fun _ _ _ => trivial
  intro draft s₃ hstopped
  have hs₃ := hstopped.looked.inText hreader hs₂
  rw [yields_bind, yields_of_eq_ok (options_spaces_eq _ hs₃)]
  exact (takesPlain_stopped hreader s).started _ (hstopped.after hsteps) hs₃

theorem stopped_lead (hreader : TakesUnits reader) (options : Options) (hs : s.cursor.InText) :
    Yields (lead reader options) s (fun _ s' => Stopped reader s s') (fun _ _ => True) := by
  unfold lead
  rw [yields_bind]
  apply Yields.mono (unitSteps_token hreader (by decide) hs)
  . intro negative s₁ hsteps
    rw [yields_bind]
    refine (stopped_scan hreader _ _ (hsteps.inText hreader hs)).mono ?_ fun _ _ _ => trivial
    exact fun _ _ hstopped => hstopped.after hsteps
  . exact fun _ _ h => h.elim

theorem looked_fraction (hreader : TakesUnits reader) (options : Options) (whole : Digits)
    (hs : s.cursor.InText) (h : Stopped reader s s') :
    Yields (fraction reader options whole) s' (fun _ s'' => Looked reader s s'') (fun _ _ => True) := by
  have hs' := h.looked.inText hreader hs
  unfold fraction
  rw [yields_bind, yields_index]
  dsimp only
  split
  . exact h.looked
  . rw [yields_bind]
    have htoken := token_eq hs' ['.']
    split at htoken
    . next hprefix =>
      -- the digits before the point took all that they looked at
      obtain ⟨rest, hrest⟩ := hprefix
      have hsteps := h.exact hreader hs' hrest.symm (by decide)
      have hpoint : UnitSteps reader s' (s'.advance 1) :=
        .single ((unitStep_plain hreader hs' hrest.symm (by decide)).mpr rfl)
      rw [yields_of_eq_ok htoken, if_pos rfl, yields_bind]
      refine (stopped_scan hreader _ _ (hpoint.inText hreader hs')).mono ?_ fun _ _ _ => trivial
      intro d s₁ hstopped
      have hlooked : Looked reader s' s₁ := (hstopped.after hpoint).looked
      split
      . exact (hlooked.moveTo hreader hs').after hsteps
      . rw [yields_bind]
        refine yields_orFail ?_ fun _ => trivial
        exact fun _ _ => hlooked.after hsteps
    . rw [yields_of_eq_ok htoken]
      exact h.looked

theorem looked_delimited {α : Type} (hreader : TakesUnits reader) (options : Options)
    {part : Eval (α × Bool)} (hs : s.cursor.InText)
    (hpart : Yields part (options.started s) (fun _ s' => Looked reader (options.started s) s')
      fun _ _ => True) :
    Yields (delimited options part) s (fun _ s' => Looked reader s s') (fun _ _ => True) := by
  have hstart : UnitSteps reader s (options.started s) :=
    (takesPlain_unitSteps hreader s).started _ .refl hs
  have hs₁ := hstart.inText hreader hs
  have hspaces : ∀ (a : α) (s' : State), Looked reader s s' →
      Yields (options.spaces >>= fun _ => pure a) s' (fun _ s'' => Looked reader s s'')
        (fun _ _ => True) := by
    intro a s' hlooked
    have hs' := hlooked.inText hreader hs
    rw [yields_bind, yields_of_eq_ok (options_spaces_eq _ hs')]
    exact (takesPlain_looked hreader s).started _ hlooked hs'
  unfold delimited
  rw [yields_bind, yields_of_eq_ok (options_spaces_eq _ hs), yields_bind, yields_index, yields_bind]
  refine hpart.mono ?_ fun _ _ _ => trivial
  rintro ⟨a, back⟩ s₂ hlooked
  cases back with
  | false => exact hspaces a s₂ (hlooked.after hstart)
  | true => exact hspaces a _ ((hlooked.moveTo hreader hs₁).after hstart)

theorem looked_int (hreader : TakesUnits reader) (options : Options) (hs : s.cursor.InText) :
    Yields (int reader options) s (fun _ s' => Looked reader s s') (fun _ _ => True) := by
  rw [int_eq_delimited]
  apply looked_delimited hreader options hs
  rw [yields_bind]
  refine (stopped_lead hreader options (started_inText options hs)).mono ?_ fun _ _ _ => trivial
  exact fun _ _ hstopped => hstopped.looked

theorem looked_float (hreader : TakesUnits reader) (options : Options) (hs : s.cursor.InText) :
    Yields (float reader options) s (fun _ s' => Looked reader s s') (fun _ _ => True) := by
  have hs₁ := started_inText options hs
  rw [float_eq_delimited]
  apply looked_delimited hreader options hs
  rw [yields_bind]
  refine (stopped_lead hreader options hs₁).mono ?_ fun _ _ _ => trivial
  intro l s₂ hstopped
  rw [yields_bind]
  exact looked_fraction hreader options l.digits hs₁ hstopped

theorem Looked.exists_leaves (hreader : TakesUnits reader) (h : Looked reader s s')
    (hs : s.cursor.InText) : ∃ taken looked back, Leaves reader s taken looked s' back := by
  obtain ⟨taken, looked, htaken, hlooked, rfl⟩ := h
  obtain ⟨back, htook, hlog⟩ := hlooked.exists_took hreader (htaken.inText hreader hs)
  exact ⟨taken, looked, back, htaken, hlooked, htook, rfl, hlog⟩

theorem Stopped.exists_leaves (hreader : TakesUnits reader) (h : Stopped reader s s')
    (hs : s.cursor.InText) :
    ∃ taken looked back, Leaves reader s taken looked s' back ∧
      Relation.ReflGen (UnitStep reader) taken looked := by
  obtain ⟨taken, looked, htaken, hlooked, rfl⟩ := h
  obtain ⟨back, htook, hlog⟩ :=
    UnitSteps.exists_took hreader hlooked.to_reflTransGen (htaken.inText hreader hs)
  exact ⟨taken, looked, back, ⟨htaken, hlooked.to_reflTransGen, htook, rfl, hlog⟩, hlooked⟩

end Reads

/--
Whatever a read does, it does by taking units one after another, from where it was started up to where
it leaves the cursor and, if it looked further, over the units that it then gave back. A read of a
string gives back at most one unit.
-/
theorem reads_do_what_units_do (level : Nat) {s : State} (hs : s.cursor.InText) :
    let reader := (Evaluator.ofLevel Standard.registry (level + 1)).unit
    (∀ options n s', int reader options s = .ok n s' →
      ∃ taken looked back, Leaves reader s taken looked s' back) ∧
    (∀ options x s', float reader options s = .ok x s' →
      ∃ taken looked back, Leaves reader s taken looked s' back) ∧
    (∀ options t s', string reader options s = .ok t s' →
      ∃ taken looked back, Leaves reader s taken looked s' back ∧
        Relation.ReflGen (UnitStep reader) taken looked) ∧
    ∀ options t s', string rawUnit options s = .ok t s' →
      ∃ taken looked back, Leaves rawUnit s taken looked s' back ∧
        Relation.ReflGen (UnitStep rawUnit) taken looked := by
  intro reader
  have hreader : TakesUnits reader := takesUnits_unit (Standard.sound_ofLevel level)
  refine ⟨fun options n s' hint => ?_, fun options x s' hfloat => ?_, fun options t s' hstring => ?_,
    fun options t s' hstring => ?_⟩
  . exact ((looked_int hreader options hs).of_ok hint).exists_leaves hreader hs
  . exact ((looked_float hreader options hs).of_ok hfloat).exists_leaves hreader hs
  . exact ((stopped_string hreader options hs).of_ok hstring).exists_leaves hreader hs
  . exact ((stopped_string takesUnits_rawUnit options hs).of_ok hstring).exists_leaves
      takesUnits_rawUnit hs

/--
Before a substitution in which something is said, and whose value is no digit.
-/
def beforeSaying : State := { cursor := { buffer := "${return ${say x}a}".toList } }

theorem reads_do_what_units_do_saying :
    let reader := (Evaluator.ofLevel Standard.registry 4).unit
    beforeSaying.cursor.InText ∧ ∃ t s' taken looked back,
      string reader {} beforeSaying = .ok t s' ∧
        Leaves reader beforeSaying taken looked s' back := by
  intro reader
  have hs : beforeSaying.cursor.InText := spawn_inText beforeSaying.cursor _
  have hok : (match string reader {} beforeSaying with
      | .ok .. => true
      | .error .. => false) = true := by
    decide +kernel
  refine ⟨hs, ?_⟩
  split at hok
  . next t s' hstring =>
    obtain ⟨-, -, hreads, -⟩ := reads_do_what_units_do 3 hs
    obtain ⟨taken, looked, back, hleaves, -⟩ := hreads {} t s' hstring
    exact ⟨t, s', taken, looked, back, hstring, hleaves⟩
  . cases hok

/--
A substitution that is given back is not undone. The read of an integer leaves the cursor where it was,
in front of the substitution, but says what is said in it. The next read says it again.
-/
theorem given_back_substitution_runs_again :
    let reader := (Evaluator.ofLevel Standard.registry 4).unit
    ∃ s' s'', int reader {} beforeSaying = .ok none s' ∧ s'.cursor.index = 0 ∧
      (∀ taken, UnitSteps reader beforeSaying taken → taken.cursor.index = 0 →
        Log.effects taken.log ≠ Log.effects s'.log) ∧
      string reader {} s' = .ok ['a'] s'' ∧
      Log.effects s''.log = [⟨.stdout, ['x']⟩, ⟨.stdout, ['x']⟩] := by
  intro reader
  have hs : beforeSaying.cursor.InText := spawn_inText beforeSaying.cursor _
  have hreader : TakesUnits reader := takesUnits_unit (Standard.sound_ofLevel 3)
  have hrun : (match int reader {} beforeSaying with
      | .ok none s' => s'.cursor.index == 0 && Log.effects s'.log == [⟨.stdout, ['x']⟩] &&
        (match string reader {} s' with
        | .ok t s'' => t == ['a'] && Log.effects s''.log == [⟨.stdout, ['x']⟩, ⟨.stdout, ['x']⟩]
        | .error .. => false)
      | _ => false) = true := by
    decide +kernel
  split at hrun
  . next s' hint =>
    split at hrun
    . next t s'' hstring =>
      simp only [Bool.and_eq_true, beq_iff_eq] at hrun
      obtain ⟨⟨hindex, heffects⟩, rfl, heffects'⟩ := hrun
      refine ⟨s', s'', hint, hindex, ?_, hstring, heffects'⟩
      intro taken hsteps htaken
      obtain rfl := hsteps.eq_of_index_eq hreader hs htaken
      rw [heffects]
      decide
    . simp at hrun
  . cases hrun

end Read

end LineScript
