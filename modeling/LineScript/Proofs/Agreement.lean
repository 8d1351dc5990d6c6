import LineScript.Proofs.Delimited
import LineScript.Proofs.Standard

/-!
This module contains the comparison of the reads of an integer and of a number. If no fraction follows
the digits, they give the same number; what they do not agree on is how much is given back when there
is no digit.
-/

namespace LineScript.Read

open Eval Cursor

/--
The cursor after the spaces, if the options say that they are skipped.
-/
def Options.skipped (options : Options) (c : Cursor) : Cursor :=
  if options.skipSpaces then c.advance (c.ahead.takeWhile (· == ' ')).length else c

/--
The state in which the part of a read starts.
-/
def Options.started (options : Options) (s : State) : State :=
  { s with cursor := options.skipped s.cursor }

variable {reader : Eval Value} {options : Options} {s s' : State} {l : Lead}

theorem options_spaces_eq (options : Options) (hs : s.cursor.InText) :
    options.spaces s = .ok () (options.started s) := by
  unfold Options.spaces Options.started Options.skipped
  split
  . exact spaces_eq hs
  . rfl

theorem exists_took_skipped (options : Options) (c : Cursor) :
    ∃ used, c.Took used (options.skipped c) := by
  unfold Options.skipped
  split
  . exact ⟨_, List.takeWhile_prefix _, rfl⟩
  . exact ⟨[], Took.refl c⟩

theorem skipped_skipped (options : Options) {c : Cursor} (hc : c.InText) :
    options.skipped (options.skipped c) = options.skipped c := by
  unfold Options.skipped
  split
  . have htook : c.Took (c.ahead.takeWhile (· == ' '))
        (c.advance (c.ahead.takeWhile (· == ' ')).length) :=
      ⟨List.takeWhile_prefix _, rfl⟩
    have hahead : c.ahead.dropSpaces = (c.advance (c.ahead.takeWhile (· == ' ')).length).ahead :=
      List.append_cancel_left (List.takeWhile_append_dropWhile.trans (htook.ahead_eq hc))
    have hnil : c.ahead.dropSpaces.takeWhile (· == ' ') = [] := by
      have hhead := Text.head?_dropSpaces c.ahead
      cases hdrop : c.ahead.dropSpaces with
      | nil => rfl
      | cons d rest =>
        rw [hdrop, List.head?_cons] at hhead
        rw [List.takeWhile_cons_of_neg (by simpa using hhead)]
    rw [← hahead, hnil]
    exact advance_zero _
  . rfl

theorem started_inText (options : Options) (hs : s.cursor.InText) :
    (options.started s).cursor.InText := by
  obtain ⟨used, htook⟩ := exists_took_skipped options s.cursor
  exact htook.inText hs

/--
The spaces after the part end where the part started only if nothing was taken.
-/
theorem skipped_eq_iff {c : Cursor} {used : Text} (hs : s.cursor.InText)
    (htook : (options.started s).cursor.Took used c) :
    options.skipped s.cursor = options.skipped c ↔ (options.started s).cursor.index = c.index := by
  have hmoved := htook.index_eq
  constructor
  . intro heq
    obtain ⟨spaces, hspaces⟩ := exists_took_skipped options c
    have hindex : (options.started s).cursor.index = c.index + spaces.length := by
      rw [← hspaces.index_eq, ← heq]
      rfl
    omega
  . intro hsame
    obtain rfl : used = [] := List.eq_nil_of_length_eq_zero (by omega)
    have hcursor : c = options.skipped s.cursor := htook.eq_advance.trans (advance_zero _)
    rw [hcursor, skipped_skipped options hs]

theorem delimited_of_ok {α : Type} {part : Eval (α × Bool)} {a : α} {back : Bool} {used : Text}
    (hs : s.cursor.InText) (hpart : part (options.started s) = .ok (a, back) s')
    (htook : (options.started s).cursor.Took used s'.cursor) :
    delimited options part s = .ok a { s' with
      cursor := if back then options.skipped s.cursor else options.skipped s'.cursor } := by
  have hstart := started_inText options hs
  unfold delimited
  rw [bind_of_ok (options_spaces_eq options hs), index_bind, bind_of_ok hpart]
  cases back with
  | false => exact bind_of_ok (options_spaces_eq options (htook.inText hstart))
  | true =>
    -- the cursor is back where the part started, and no space is there
    have hmove : moveTo (options.started s).cursor.index s' =
        .ok () { s' with cursor := options.skipped s.cursor } := by
      have hcursor : s'.cursor.moveTo (options.started s).cursor.index = options.skipped s.cursor := by
        rw [htook.eq_advance]
        rfl
      rw [← hcursor]
      rfl
    have hspaces : options.spaces { s' with cursor := options.skipped s.cursor } =
        .ok () { s' with cursor := options.skipped (options.skipped s.cursor) } :=
      options_spaces_eq options hstart
    rw [skipped_skipped options hs] at hspaces
    exact (bind_of_ok hmove).trans (bind_of_ok hspaces)

theorem fraction_of_no_point (reader : Eval Value) (options : Options) {d : Digits}
    (hs : s.cursor.InText) (h : d.ended = true ∨ s.cursor.ahead.head? ≠ some '.') :
    fraction reader options d s = .ok (d.value.map fun n : Nat => .whole n) s := by
  unfold fraction
  rw [index_bind]
  dsimp only
  split
  . cases d.value <;> rfl
  . next hended =>
    have hpoint : ¬ ['.'] <+: s.cursor.ahead := by
      rw [List.singleton_prefix_iff_head?_eq_some]
      exact h.resolve_left hended
    have htoken := token_eq hs ['.']
    rw [if_neg hpoint] at htoken
    rw [bind_of_ok htoken]
    cases d.value <;> rfl

theorem takes_lead (options : Options) (hs : s.cursor.InText) {V : Text → Value → Prop}
    (hreader : UnitsTake reader V s.cursor.scope) : Takes (lead reader options) s fun _ _ => True := by
  unfold lead
  apply Takes.bind (takes_token _ hs) hs
  intro sign negative s₁ h₁ hs₁ _
  apply Takes.bind (takes_digits options hs₁ (h₁.scope_eq ▸ hreader)) hs₁
  intro used digits s₂ h₂ hs₂ _
  exact takes_pure trivial

theorem int_of_lead {used : Text} (hs : s.cursor.InText)
    (hlead : lead reader options (options.started s) = .ok l s')
    (htook : (options.started s).cursor.Took used s'.cursor) :
    int reader options s = .ok l.int { s' with
      cursor := if l.digits.value.isNone && l.negative && !l.digits.ended
        then options.skipped s.cursor else options.skipped s'.cursor } := by
  rw [int_eq_delimited]
  exact delimited_of_ok hs (bind_of_ok hlead) htook

theorem float_of_lead {used : Text} (hs : s.cursor.InText)
    (hlead : lead reader options (options.started s) = .ok l s')
    (htook : (options.started s).cursor.Took used s'.cursor)
    (hpoint : l.digits.ended = true ∨ s'.cursor.ahead.head? ≠ some '.') :
    float reader options s = .ok (l.int.map .whole) { s' with
      cursor := if l.digits.value.isNone && !l.digits.ended
        then options.skipped s.cursor else options.skipped s'.cursor } := by
  have hfraction := fraction_of_no_point reader options (htook.inText (started_inText options hs))
    hpoint
  have hnumber : (if l.negative then
      (l.digits.value.map fun n : Nat => Number.whole n).map Number.neg
      else l.digits.value.map fun n : Nat => Number.whole n) = l.int.map .whole := by
    unfold Lead.int
    cases l.digits.value with
    | none => cases l.negative <;> rfl
    | some n => cases l.negative <;> rfl
  rw [float_eq_delimited, ← hnumber, ← Option.isNone_map (f := fun n : Nat => Number.whole n)]
  exact delimited_of_ok hs ((bind_of_ok hlead).trans (bind_of_ok hfraction)) htook

/--
There is no digit, no sign and no semicolon, and yet something was taken. So that was units without
text.
-/
def Lead.Blank (l : Lead) (start stop : Cursor) : Prop :=
  l.digits.value = none ∧ l.negative = false ∧ l.digits.ended = false ∧ start.index ≠ stop.index

/--
If no fraction follows, the read of an integer and the read of a number give the same number, and the
same things happen. They leave the cursor at the same place if and only if the lead is not blank: what
a blank lead took is given back by the read of a number, but not by the read of an integer.
-/
theorem int_agrees_with_float_iff (level : Nat) (options : Options) {s s' : State} {l : Lead}
    (hs : s.cursor.InText)
    (hlead : lead (Evaluator.ofLevel Standard.registry level).unit options (options.started s) =
      .ok l s')
    (hpoint : l.digits.ended = true ∨ s'.cursor.ahead.head? ≠ some '.') :
    let reader := (Evaluator.ofLevel Standard.registry level).unit
    ∃ (i : Option Int) (afterInt afterFloat : State),
      int reader options s = .ok i afterInt ∧
      float reader options s = .ok (i.map .whole) afterFloat ∧
      afterFloat.log = afterInt.log ∧
      (afterFloat = afterInt ↔ ¬ l.Blank (options.started s).cursor s'.cursor) := by
  intro reader
  have hstart := started_inText options hs
  obtain ⟨used, htook, -⟩ := Yields.of_ok
    (takes_lead options hstart (Standard.sound_ofLevel level).reader) hlead
  refine ⟨_, _, _, int_of_lead hs hlead htook, float_of_lead hs hlead htook hpoint, rfl, ?_⟩
  have hsame := skipped_eq_iff hs htook
  cases hvalue : l.digits.value with
  | some n => simp [Lead.Blank, hvalue]
  | none =>
    cases hended : l.digits.ended with
    | true => simp [Lead.Blank, hended]
    | false =>
      -- all that is left is the sign: with one, both reads give back what was taken
      cases hnegative : l.negative with
      | true => simp [Lead.Blank, hnegative]
      | false => simp [Lead.Blank, hvalue, hended, hnegative, hsame]

/--
Before a negative number that ends with a semicolon. One of its places is the variable `n`.
-/
def beforeNumber : State :=
  { cursor := { buffer := " -1$n;  x".toList, scope := .ofList [(['n'], .int 23)] } }

theorem int_agrees_with_float_iff_number :
    let reader := (Evaluator.ofLevel Standard.registry 1).unit
    ∃ i after, int reader {} beforeNumber = .ok i after ∧
      float reader {} beforeNumber = .ok (i.map .whole) after := by
  intro reader
  have hs : beforeNumber.cursor.InText := spawn_inText beforeNumber.cursor _
  have hlead : lead reader {} (Options.started {} beforeNumber) =
      .ok ⟨true, { value := some 33, places := 2, ended := true }⟩ (beforeNumber.advance 6) := rfl
  obtain ⟨i, after, after', hint, hfloat, -, heq⟩ :=
    int_agrees_with_float_iff 1 {} hs hlead (Or.inl rfl)
  obtain rfl := heq.mpr fun hblank => nomatch hblank.1
  exact ⟨i, after', hint, hfloat⟩

/--
Before the variable `e`, which has no text, and something that is no number.
-/
def beforeBlank : State :=
  { cursor := { buffer := "$e x".toList, scope := .ofList [(['e'], .text [])] } }

/--
The read of an integer does not give back a unit without text, and the read of a number does.
-/
theorem int_disagrees_with_float_after_blank :
    let reader := (Evaluator.ofLevel Standard.registry 1).unit
    lead reader {} (Options.started {} beforeBlank) = .ok ⟨false, {}⟩ (beforeBlank.advance 2) ∧
      (beforeBlank.advance 2).cursor.ahead.head? = some ' ' ∧
      int reader {} beforeBlank = .ok none (beforeBlank.advance 3) ∧
      float reader {} beforeBlank = .ok none beforeBlank :=
  ⟨rfl, rfl, rfl, rfl⟩

end LineScript.Read
