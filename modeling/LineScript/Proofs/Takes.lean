import LineScript.Proofs.Ahead
import LineScript.Proofs.Weight
import LineScript.Read.Number
import LineScript.Read.String
import Mathlib.Data.List.TakeWhile

/-!
This module contains what all reads have in common. `Eval.Takes x s R` says that `x` takes characters
off the text ahead of the cursor of `s`, and that those characters and its value are in `R`. If it
stops early, it has taken some characters too, and a fault that it stops with points into the text
that it names. A read of units takes as many characters as its units, and what it makes of them is
an invariant of its judge.
-/

namespace LineScript

/--
In the text, the index stands after a dollar sign, and `name` is the whole name that starts there.
-/
def Text.NameAt (buffer : Text) (index : Nat) (name : Text) : Prop :=
  ∃ before after, buffer = before ++ '$' :: name ++ after ∧ index = before.length + 1 ∧
    (∀ c ∈ name, Text.isNameChar c = true) ∧ ∀ c, after.head? = some c → Text.isNameChar c = false

/--
The fault has a place in the text that it names. If a variable is unknown, its name is there.
-/
def Fault.Placed (fault : Fault) : Prop :=
  ∃ (buffer : Text) (index : Nat), fault.buffer = some buffer ∧ fault.index = some (index : Int) ∧
    index ≤ buffer.length ∧
    (fault.kind = .unknownVariable →
      ∃ name, fault.cause = .unknownVariable name ∧ buffer.NameAt index name)

def Stop.Placed : Stop → Prop
  | .fault f => f.Placed
  | _ => True

theorem Fault.placed_of_inText {c : Cursor} (hc : c.InText) (cause : Cause)
    (hcause : cause.kind ≠ .unknownVariable) :
    Fault.Placed ⟨cause, some c.index, some c.buffer⟩ := by
  have h0 := hc.nonneg
  have h1 := hc.le_length
  refine ⟨c.buffer, c.index.toNat, rfl, ?_, by omega, ?_⟩
  . simp only [Option.some.injEq]
    omega
  . intro hkind
    exact absurd hkind hcause

theorem Fault.Placed.locate_eq {f : Fault} (h : f.Placed) (buffer : Text) (index : Int) :
    f.locate buffer index = f := by
  obtain ⟨_, _, hbuffer, -⟩ := h
  unfold locate
  rw [hbuffer]

namespace Eval

open Cursor

variable {α β : Type} {s : State} {c : Cursor} {R R' : Text → α → Prop}

/--
The computation takes characters off the text ahead; they and its value are in `R`.
-/
def Takes (x : Eval α) (s : State) (R : Text → α → Prop) : Prop :=
  Yields x s (fun a s' => ∃ used, s.cursor.Took used s'.cursor ∧ R used a)
    (fun e s' => (∃ used, s.cursor.Took used s'.cursor) ∧ e.Placed)

theorem Takes.mono {x : Eval α} (h : Takes x s R) (hr : ∀ used a, R used a → R' used a) :
    Takes x s R' := by
  apply Yields.mono h
  . rintro a s' ⟨used, htook, hused⟩
    exact ⟨used, htook, hr used a hused⟩
  . intro e s' he
    exact he

theorem takes_pure {a : α} (h : R [] a) : Takes (pure a) s R := by
  unfold Takes
  rw [yields_pure]
  exact ⟨[], Took.refl _, h⟩

theorem takes_throw {e : Stop} (h : e.Placed) : Takes (throw e) s R := by
  unfold Takes
  rw [yields_throw]
  exact ⟨⟨[], Took.refl _⟩, h⟩

theorem takes_fail {failure : Failure} : Takes (fail failure) s R := takes_throw trivial

theorem takes_fault {cause : Cause} {i : Int} (h : Fault.Placed ⟨cause, some i, some s.cursor.buffer⟩) :
    Takes (fault cause i) s R := by
  unfold Takes
  rw [yields_fault]
  exact ⟨⟨[], Took.refl _⟩, h⟩

theorem takes_fault_at {c : Cursor} {cause : Cause} (hc : c.InText)
    (hbuffer : s.cursor.buffer = c.buffer) (hcause : cause.kind ≠ .unknownVariable) :
    Takes (fault cause c.index) s R := by
  apply takes_fault
  rw [hbuffer]
  exact Fault.placed_of_inText hc cause hcause

theorem takes_fault_at_bind {c : Cursor} {cause : Cause} {f : β → Eval α} (hc : c.InText)
    (hbuffer : s.cursor.buffer = c.buffer) (hcause : cause.kind ≠ .unknownVariable) :
    Takes (fault cause c.index >>= f) s R := by
  unfold Takes
  rw [yields_bind, yields_fault, hbuffer]
  exact ⟨⟨[], Took.refl _⟩, Fault.placed_of_inText hc cause hcause⟩

theorem takes_orFail {failure : Failure} {o : Option α} (h : ∀ a, o = some a → R [] a) :
    Takes (orFail failure o) s R := by
  cases o with
  | none => exact takes_fail
  | some a => exact takes_pure (h a rfl)

theorem takes_of_eq {x : Eval α} {a : α} {used : Text} (hx : x s = .ok a (s.advance used.length))
    (hused : used <+: s.cursor.ahead) (h : R used a) : Takes x s R := by
  unfold Takes
  rw [yields_of_eq_ok hx]
  exact ⟨used, ⟨hused, rfl⟩, h⟩

theorem takes_of_still {x : Eval α}
    (h : Yields x s (fun a s' => s'.cursor = s.cursor ∧ R [] a)
      (fun e s' => s'.cursor = s.cursor ∧ e.Placed)) : Takes x s R := by
  apply Yields.mono h
  . rintro a s' ⟨hcursor, ha⟩
    exact ⟨[], hcursor ▸ Took.refl _, ha⟩
  . rintro e s' ⟨hcursor, he⟩
    exact ⟨⟨[], hcursor ▸ Took.refl _⟩, he⟩

theorem Takes.bind {x : Eval α} {f : α → Eval β} {R : Text → α → Prop} {R' : Text → β → Prop}
    (hx : Takes x s R) (hs : s.cursor.InText)
    (hf : ∀ used a s', s.cursor.Took used s'.cursor → s'.cursor.InText → R used a →
      Takes (f a) s' fun used' b => R' (used ++ used') b) : Takes (x >>= f) s R' := by
  unfold Takes
  rw [yields_bind]
  apply Yields.mono hx
  . rintro a s' ⟨used, htook, hused⟩
    apply Yields.mono (hf used a s' htook (htook.inText hs) hused)
    . rintro b s'' ⟨used', htook', hused'⟩
      exact ⟨used ++ used', htook.trans htook' hs, hused'⟩
    . rintro e s'' ⟨⟨used', htook'⟩, he⟩
      exact ⟨⟨used ++ used', htook.trans htook' hs⟩, he⟩
  . intro e s' he
    exact he

theorem Takes.bind_still {x : Eval α} {f : α → Eval β} {P : α → Prop} {R' : Text → β → Prop}
    (hx : Yields x s (fun a s' => s'.cursor = s.cursor ∧ P a)
      (fun e s' => s'.cursor = s.cursor ∧ e.Placed))
    (hf : ∀ a s', s'.cursor = s.cursor → P a → Takes (f a) s' R') : Takes (x >>= f) s R' := by
  unfold Takes
  rw [yields_bind]
  apply Yields.mono hx
  . rintro a s' ⟨hcursor, ha⟩
    rw [← hcursor]
    exact hf a s' hcursor ha
  . rintro e s' ⟨hcursor, he⟩
    exact ⟨⟨[], hcursor ▸ Took.refl _⟩, he⟩

theorem Takes.after {x : Eval α} {s' : State} {used : Text} (h : Takes x s' R)
    (htook : s.cursor.Took used s'.cursor) (hs : s.cursor.InText) :
    Yields x s'
      (fun a s'' => ∃ used', s'.cursor.Took used' s''.cursor ∧
        s.cursor.Took (used ++ used') s''.cursor ∧ R used' a)
      (fun e s'' => (∃ used', s.cursor.Took used' s''.cursor) ∧ e.Placed) := by
  apply Yields.mono h
  . rintro a s'' ⟨used', htook', hused'⟩
    exact ⟨used', htook', htook.trans htook' hs, hused'⟩
  . rintro e s'' ⟨⟨used', htook'⟩, he⟩
    exact ⟨⟨used ++ used', htook.trans htook' hs⟩, he⟩

theorem takes_index_bind {f : Int → Eval α} (h : Takes (f s.cursor.index) s R) :
    Takes (index >>= f) s R := by
  unfold Takes
  rw [yields_bind, yields_index]
  exact h

theorem takes_cursor_bind {f : Cursor → Eval α} (h : Takes (f s.cursor) s R) :
    Takes (cursor >>= f) s R := by
  unfold Takes
  rw [yields_bind, yields_cursor]
  exact h

/--
The computation leaves the cursor after characters that were taken off the text ahead of `c`.
-/
def TakesFrom (c : Cursor) (x : Eval α) (s : State) : Prop :=
  Yields x s (fun _ s' => ∃ used, c.Took used s'.cursor ∧ True)
    (fun e s' => (∃ used, c.Took used s'.cursor) ∧ e.Placed)

theorem takesFrom_of_takes {x : Eval α} {used : Text} (h : Takes x s R)
    (htook : c.Took used s.cursor) (hc : c.InText) : TakesFrom c x s := by
  apply Yields.mono h
  . rintro a s' ⟨used', htook', _⟩
    exact ⟨used ++ used', htook.trans htook' hc, trivial⟩
  . rintro e s' ⟨⟨used', htook'⟩, he⟩
    exact ⟨⟨used ++ used', htook.trans htook' hc⟩, he⟩

theorem takesFrom_pure (a : α) {used : Text} (htook : c.Took used s.cursor) :
    TakesFrom c (pure a) s := by
  unfold TakesFrom
  rw [yields_pure]
  exact ⟨used, htook, trivial⟩

theorem takesFrom_bind {x : Eval α} {f : α → Eval β} {used : Text}
    (h : Takes x s R) (htook : c.Took used s.cursor) (hc : c.InText)
    (hf : ∀ used a s', c.Took used s'.cursor → TakesFrom c (f a) s') :
    TakesFrom c (x >>= f) s := by
  unfold TakesFrom
  rw [yields_bind]
  apply Yields.mono (takesFrom_of_takes h htook hc)
  . rintro a s' ⟨used', htook', _⟩
    exact hf used' a s' htook'
  . intro e s' he
    exact he

theorem takesFrom_moveTo_bind {f : Unit → Eval β} {used : Text} (htook : c.Took used s.cursor)
    (hf : ∀ s', c.Took [] s'.cursor → TakesFrom c (f ()) s') :
    TakesFrom c (moveTo c.index >>= f) s := by
  unfold TakesFrom
  rw [yields_bind, yields_moveTo]
  apply hf
  rw [htook.eq_advance]
  exact Took.refl c

end Eval

namespace Read

open Eval Cursor

variable {s : State} {σ : Type}

/--
A unit that was read from the cursor `c` is no value, or it is one that took at least one character.
In the first case the cursor may be anywhere: whoever reads units moves it back.
-/
def UnitPost (V : Text → Value → Prop) (c : Cursor) (v : Value) (c' : Cursor) : Prop :=
  (v = .null ∧ ∃ i, c' = c.moveTo i) ∨ ∃ used, used ≠ [] ∧ c.Took used c' ∧ V used v

/--
With the variables in `scope`, whatever the reader gives is a unit in `V` or no value.
-/
def UnitsTake (reader : Eval Value) (V : Text → Value → Prop) (scope : Table Value) : Prop :=
  ∀ s : State, s.cursor.InText → s.cursor.scope = scope →
    Yields reader s (fun v s' => UnitPost V s.cursor v s'.cursor)
      (fun e s' => (∃ used, s.cursor.Took used s'.cursor) ∧ e.Placed)

/--
What the verdict on a unit has to keep: the units that are taken and what was made of them are in
`I`. A unit that is given back is not taken.
-/
def Verdict.Keeps (I : Text → σ → Prop) (used unit : Text) : Verdict σ → Prop
  | .next d | .keep d => I (used ++ unit) d
  | .giveBack d => I used d
  | .refuse _ => True

theorem takes_spaces (hs : s.cursor.InText) :
    Takes spaces s fun used _ => used.weight = 0 := by
  apply takes_of_eq (spaces_eq hs) (List.takeWhile_prefix _)
  rw [Text.weight_eq_zero_iff]
  intro c hc
  have hspace := List.mem_takeWhile_imp hc
  simp only [beq_iff_eq] at hspace
  rw [hspace]
  decide

theorem takes_options_spaces (options : Options) (hs : s.cursor.InText) :
    Takes options.spaces s fun used _ => used.weight = 0 := by
  unfold Options.spaces
  split
  . exact takes_spaces hs
  . exact takes_pure rfl

theorem takesFrom_spaces {α : Type} {c : Cursor} (options : Options) (a : α) {used : Text}
    (htook : c.Took used s.cursor) (hc : c.InText) :
    TakesFrom c (options.spaces >>= fun _ => pure a) s := by
  apply takesFrom_bind (takes_options_spaces options (htook.inText hc)) htook hc
  intro used' _ s' htook'
  exact takesFrom_pure a htook'

theorem takes_token (t : Text) (hs : s.cursor.InText) :
    Takes (token t) s fun used _ => used = t ∨ used = [] := by
  have hx := token_eq hs t
  split at hx
  . next hprefix => exact takes_of_eq hx hprefix (Or.inl rfl)
  . have hx' : token t s = .ok false (s.advance ([] : Text).length) := by simpa using hx
    exact takes_of_eq hx' List.nil_prefix (Or.inr rfl)

theorem takes_scan {reader : Eval Value} {judge : σ → Text → Verdict σ} {start : σ}
    {V : Text → Value → Prop} {I : Text → σ → Prop} (hs : s.cursor.InText)
    (hreader : UnitsTake reader V s.cursor.scope)
    (hstart : I [] start)
    (hjudge : ∀ used d unit v t, I used d → unit ≠ [] → V unit v → v.text? = some t →
      (judge d t).Keeps I used unit) :
    Takes (scan reader judge start) s I := by
  unfold scan
  apply takes_cursor_bind
  generalize s.cursor.remaining + 1 = budget
  -- `used` is what was taken before; the invariant speaks of all that was taken since the start
  suffices h : ∀ used d s', s.cursor.Took used s'.cursor → I used d →
      Takes (scan.go reader judge budget d) s' fun used' d' => I (used ++ used') d' by
    exact h [] start s (Took.refl _) hstart
  induction budget with
  | zero =>
    intro used d s' htook hused
    exact takes_throw trivial
  | succ budget ih =>
    intro used d s' htook hused
    have hs' := htook.inText hs
    unfold scan.go Takes
    simp only [yields_bind, yields_index]
    apply Yields.mono (hreader s' hs' htook.scope_eq)
    . intro v s'' hpost
      obtain ⟨rfl, i, hi⟩ | ⟨unit, hne, hunit, hv⟩ := hpost
      . simp only [yields_bind, yields_moveTo, yields_pure]
        refine ⟨[], ?_, by simpa using hused⟩
        rw [hi]
        exact Took.refl _
      . split
        . simp only [yields_bind, yields_moveTo, yields_pure]
          refine ⟨[], ?_, by simpa using hused⟩
          rw [hunit.eq_advance]
          exact Took.refl _
        . simp only [yields_bind]
          apply yields_orFail
          . intro t ht
            have hkeeps := hjudge used d unit v t hused hne hv ht
            split
            . next d' hd =>
              rw [hd] at hkeeps
              apply Yields.mono (ih (used ++ unit) d' s'' (htook.trans hunit hs) hkeeps)
              . rintro d'' s''' ⟨used', htook', hused'⟩
                refine ⟨unit ++ used', hunit.trans htook' hs', ?_⟩
                rw [← List.append_assoc]
                exact hused'
              . rintro e s''' ⟨⟨used', htook'⟩, he⟩
                exact ⟨⟨unit ++ used', hunit.trans htook' hs'⟩, he⟩
            . next d' hd =>
              rw [hd] at hkeeps
              exact ⟨unit, hunit, hkeeps⟩
            . next d' hd =>
              rw [hd] at hkeeps
              simp only [yields_bind, yields_moveTo, yields_pure]
              refine ⟨[], ?_, by simpa [Verdict.Keeps] using hkeeps⟩
              rw [hunit.eq_advance]
              exact Took.refl _
            . exact ⟨⟨unit, hunit⟩, trivial⟩
          . intro hnone
            exact ⟨⟨unit, hunit⟩, trivial⟩
    . intro e s'' he
      exact he

def WeighsUsed (light : Prop) (used : Text) (v : Value) : Prop := light → v.Weighs used.weight

/--
A string is empty if nothing was taken, and weighs no more than what was taken, provided that `light`
holds.
-/
def StringPost (light : Prop) (used t : Text) : Prop :=
  (t ≠ [] → used ≠ []) ∧ (light → t.weight ≤ used.weight)

theorem StringPost.weight_le {c c' : Cursor} {used t : Text} (h : StringPost c.Light used t)
    (hlight : c.Light) (htook : c.Took used c') (hc : c.InText) : t.weight ≤ c.ahead.weight := by
  have hused := h.2 hlight
  rw [htook.ahead_eq hc, Text.weight_append]
  omega

theorem keeps_judgeString {light : Prop} (endAtSemicolon keepStop : Bool) (stop : Matcher)
    (used : Text) (d : Draft) (unit : Text) (v : Value) (t : Text)
    (hused : StringPost light used d.text) (hne : unit ≠ []) (hv : WeighsUsed light unit v)
    (ht : v.text? = some t) :
    (judgeString endAtSemicolon keepStop stop d t).Keeps (fun used d => StringPost light used d.text)
      used unit := by
  have happend : StringPost light (used ++ unit) (d.append t).text := by
    constructor
    . intro _
      simp [hne]
    . intro hlight
      have hd := hused.2 hlight
      have hunit := hv hlight t ht
      rw [Draft.text_append, Text.weight_append, Text.weight_append]
      omega
  have hkeep : StringPost light (used ++ unit) d.text := by
    constructor
    . intro _
      simp [hne]
    . intro hlight
      have hd := hused.2 hlight
      rw [Text.weight_append]
      omega
  unfold judgeString
  split
  . exact happend
  . split
    . exact hkeep
    . split
      . split
        . exact hkeep
        . exact hused
      . split
        . exact hkeep
        . exact happend

theorem takes_matcher (options : StringOptions) (hs : s.cursor.InText) :
    Takes options.matcher s fun _ _ => True := by
  unfold StringOptions.matcher
  split
  . exact takes_pure trivial
  . apply Takes.bind (takes_token _ hs) hs
    intro used found s' htook hs' hused
    exact takes_pure trivial

theorem takes_draft {reader : Eval Value} (endAtSemicolon keepStop : Bool) (stop : Matcher)
    {light : Prop} (hs : s.cursor.InText)
    (hreader : UnitsTake reader (WeighsUsed light) s.cursor.scope) :
    Takes (scan reader (judgeString endAtSemicolon keepStop stop) {}) s
      fun used (d : Draft) => StringPost light used d.text := by
  apply takes_scan (I := fun used (d : Draft) => StringPost light used d.text) hs hreader
  . exact ⟨fun h => absurd rfl h, fun _ => Nat.le_refl 0⟩
  . apply keeps_judgeString

theorem takes_string {reader : Eval Value} (options : StringOptions) {light : Prop}
    (hs : s.cursor.InText)
    (hreader : UnitsTake reader (WeighsUsed light) s.cursor.scope) :
    Takes (string reader options) s (StringPost light) := by
  unfold string
  apply Takes.bind (takes_options_spaces _ hs) hs
  intro before _ s₁ h₁ hs₁ _
  apply Takes.bind (takes_matcher options hs₁) hs₁
  intro quote stop s₂ h₂ hs₂ _
  have hscope : s₂.cursor.scope = s.cursor.scope := h₂.scope_eq.trans h₁.scope_eq
  apply Takes.bind (takes_draft _ _ stop hs₂ (hscope ▸ hreader)) hs₂
  intro units d s₃ h₃ hs₃ hpost
  apply Takes.bind (takes_options_spaces _ hs₃) hs₃
  intro after _ s₄ h₄ hs₄ _
  apply takes_pure
  constructor
  . intro hne
    have := hpost.1 hne
    simp [this]
  . intro hlight
    have := hpost.2 hlight
    simp only [Text.weight_append]
    omega

theorem takes_digits {reader : Eval Value} (options : Options) {V : Text → Value → Prop}
    (hs : s.cursor.InText)
    (hreader : UnitsTake reader V s.cursor.scope) :
    Takes (digits reader options) s fun _ _ => True := by
  apply takes_scan hs hreader trivial
  intro used d unit v t _ _ _ _
  cases judgeDigit options.endAtSemicolon d t <;> trivial

theorem takes_int {reader : Eval Value} (options : Options) {V : Text → Value → Prop}
    (hs : s.cursor.InText)
    (hreader : UnitsTake reader V s.cursor.scope) :
    Takes (int reader options) s fun _ _ => True := by
  unfold int
  apply Takes.bind (takes_options_spaces _ hs) hs
  intro before _ s₁ h₁ hs₁ _
  have hreader₁ : UnitsTake reader V s₁.cursor.scope := h₁.scope_eq ▸ hreader
  apply takes_index_bind
  -- the sign and the digits are seen from `s₁`, where a sign without digits is given back
  apply takesFrom_bind (takes_token _ hs₁) (Took.refl _) hs₁
  intro sign negative s₂ h₂
  apply takesFrom_bind (takes_digits options (h₂.inText hs₁) (h₂.scope_eq ▸ hreader₁)) h₂ hs₁
  intro used₃ d s₃ h₃
  dsimp only
  split
  . apply takesFrom_moveTo_bind h₃
    intro s₄ h₄
    exact takesFrom_spaces _ _ h₄ hs₁
  . exact takesFrom_spaces _ _ h₃ hs₁

end Read

end LineScript
