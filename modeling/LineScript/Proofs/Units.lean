import LineScript.Proofs.Literal
import LineScript.Proofs.Weight

/-!
This module contains reads of text in which variables stand. What such a read gives depends on the
text ahead and on the variables, and on nothing else. A string or a number is read unit by unit, so
there is one rule for each verdict on a unit.
-/

namespace LineScript

theorem Text.takeWhile_append_of_head? {p : Char → Bool} {t rest : Text}
    (ht : ∀ c ∈ t, p c = true) (hrest : ∀ c, rest.head? = some c → p c = false) :
    (t ++ rest).takeWhile p = t := by
  rw [List.takeWhile_append_of_pos ht]
  cases rest with
  | nil => simp
  | cons c rest => simp [hrest c rfl]

namespace Eval

open Cursor

variable {α β : Type} {scope : Table Value} {t rest rest' : Text} {a : α} {b : β}

/--
With the variables in `scope` and the text `t` ahead, the computation gives `a` and leaves `rest`
ahead. It does nothing else.
-/
def ReadsIn (scope : Table Value) (x : Eval α) (t : Text) (a : α) (rest : Text) : Prop :=
  ∃ used, t = used ++ rest ∧ ∀ s : State, s.cursor.InText → s.cursor.scope = scope →
    s.cursor.ahead = t → x s = .ok a (s.advance used.length)

theorem Reads.readsIn {x : Eval α} (h : Reads x t a rest) (scope : Table Value) :
    ReadsIn scope x t a rest := by
  obtain ⟨used, ht, hx⟩ := h
  exact ⟨used, ht, fun s hs _ hahead => hx s hs hahead⟩

theorem ReadsIn.exists_used {x : Eval α} (h : ReadsIn scope x t a rest) {s : State}
    (hs : s.cursor.InText) (hscope : s.cursor.scope = scope) (hahead : s.cursor.ahead = t) :
    ∃ used, t = used ++ rest ∧ x s = .ok a (s.advance used.length) ∧
      (s.advance used.length).cursor.InText ∧ (s.advance used.length).cursor.ahead = rest := by
  obtain ⟨used, rfl, hx⟩ := h
  exact ⟨used, rfl, hx s hs hscope hahead, advance_of_eq_append hs hahead⟩

theorem ReadsIn.bind {x : Eval α} {f : α → Eval β} (hx : ReadsIn scope x t a rest)
    (hf : ReadsIn scope (f a) rest b rest') : ReadsIn scope (x >>= f) t b rest' := by
  obtain ⟨used, rfl, hx⟩ := hx
  obtain ⟨used', rfl, hf⟩ := hf
  refine ⟨used ++ used', by rw [List.append_assoc], ?_⟩
  intro s hs hscope hahead
  obtain ⟨hs', hrest⟩ := advance_of_eq_append hs hahead
  rw [bind_of_ok (hx s hs hscope hahead), hf _ hs' hscope hrest, State.advance_advance,
    List.length_append]
  rfl

end Eval

namespace Read

open Eval Cursor

variable {σ : Type} {scope : Table Value} {reader : Eval Value} {judge : σ → Text → Verdict σ}
  {t rest rest' u : Text} {d d' e : σ} {v : Value}

/--
The reader takes a unit with the text `u` off the text `t`, and `rest` is left.
-/
structure TakesUnit (reader : Eval Value) (scope : Table Value) (t u rest : Text) : Prop where
  length_lt : rest.length < t.length
  reads : ∃ v, v ≠ .null ∧ v.text? = some u ∧ ReadsIn scope reader t v rest

/--
With `d` made so far, the judge makes `d'` of the units of the text `t`, and `rest` is left.
-/
def Scans (reader : Eval Value) (judge : σ → Text → Verdict σ) (scope : Table Value) (d : σ)
    (t : Text) (d' : σ) (rest : Text) : Prop :=
  ∀ budget, t.length < budget → ReadsIn scope (scan.go reader judge budget d) t d' rest

theorem Scans.readsIn_scan (h : Scans reader judge scope d t d' rest) :
    ReadsIn scope (scan reader judge d) t d' rest := by
  obtain ⟨used, ht, hgo⟩ := h (t.length + 1) (Nat.lt_succ_self _)
  refine ⟨used, ht, ?_⟩
  intro s hs hscope hahead
  unfold scan
  rw [cursor_bind, remaining_eq hs, hahead]
  exact hgo s hs hscope hahead

theorem scan.go_eq_of_takesUnit {v : Value} {used : Text} (hv : v ≠ .null) (htext : v.text? = some u)
    (budget : Nat) {s : State} (hreader : reader s = .ok v (s.advance used.length)) :
    go reader judge (budget + 1) d s =
      match judge d u with
      | .next d => go reader judge budget d (s.advance used.length)
      | .keep d => .ok d (s.advance used.length)
      | .giveBack d => .ok d s
      | .refuse failure => .error (.failure failure) (s.advance used.length) := by
  have hunit : textOf v (s.advance used.length) = .ok u (s.advance used.length) := by
    unfold textOf
    rw [htext]
    rfl
  rw [go, index_bind, bind_of_ok hreader]
  cases v with
  | null => exact absurd rfl hv
  | _ =>
    dsimp only
    rw [bind_of_ok hunit]
    cases judge d u <;> rfl

theorem scans_nil (hreader : Verbatim reader fun c => c != '$') :
    Scans reader judge scope d [] d [] := by
  intro budget hbudget
  obtain ⟨budget, rfl⟩ : ∃ n, budget = n + 1 := ⟨budget - 1, by omega⟩
  refine ⟨[], rfl, ?_⟩
  intro s hs _ hahead
  unfold scan.go
  rw [index_bind, bind_of_ok (hreader.nil s hs hahead), List.length_nil, Int.natCast_zero,
    State.advance_zero]
  rfl

theorem TakesUnit.scans_next (h : TakesUnit reader scope t u rest) (hjudge : judge d u = .next e)
    (hrest : Scans reader judge scope e rest d' rest') : Scans reader judge scope d t d' rest' := by
  obtain ⟨hlt, v, hv, htext, used, rfl, hreader⟩ := h
  intro budget hbudget
  obtain ⟨budget, rfl⟩ : ∃ n, budget = n + 1 := ⟨budget - 1, by omega⟩
  obtain ⟨used', rfl, hgo⟩ := hrest budget (by omega)
  refine ⟨used ++ used', by rw [List.append_assoc], ?_⟩
  intro s hs hscope hahead
  obtain ⟨hs', hahead'⟩ := advance_of_eq_append hs hahead
  rw [scan.go_eq_of_takesUnit hv htext budget (hreader s hs hscope hahead), hjudge]
  dsimp only
  rw [hgo _ hs' hscope hahead', State.advance_advance, List.length_append]
  rfl

theorem TakesUnit.scans_keep (h : TakesUnit reader scope t u rest) (hjudge : judge d u = .keep d') :
    Scans reader judge scope d t d' rest := by
  obtain ⟨hlt, v, hv, htext, used, rfl, hreader⟩ := h
  intro budget hbudget
  obtain ⟨budget, rfl⟩ : ∃ n, budget = n + 1 := ⟨budget - 1, by omega⟩
  refine ⟨used, rfl, ?_⟩
  intro s hs hscope hahead
  rw [scan.go_eq_of_takesUnit hv htext budget (hreader s hs hscope hahead), hjudge]

theorem TakesUnit.scans_giveBack (h : TakesUnit reader scope t u rest)
    (hjudge : judge d u = .giveBack d') : Scans reader judge scope d t d' t := by
  obtain ⟨hlt, v, hv, htext, used, rfl, hreader⟩ := h
  intro budget hbudget
  obtain ⟨budget, rfl⟩ : ∃ n, budget = n + 1 := ⟨budget - 1, by omega⟩
  refine ⟨[], rfl, ?_⟩
  intro s hs hscope hahead
  rw [scan.go_eq_of_takesUnit hv htext budget (hreader s hs hscope hahead), hjudge, List.length_nil,
    Int.natCast_zero, State.advance_zero]

theorem readsIn_string {options : StringOptions} (hskip : options.skipSpaces = true)
    {stop : Matcher} {body : Text} {d : Draft}
    (hmatcher : Reads options.matcher t.dropSpaces stop body)
    (hscan : Scans reader (judgeString options.endAtSemicolon
      (options.keepStop.getD !stop.accepts (.text [' '])) stop) scope {} body d rest) :
    ReadsIn scope (string reader options) t d.text rest.dropSpaces := by
  unfold string
  apply ReadsIn.bind ((reads_options_spaces hskip t).readsIn scope)
  apply ReadsIn.bind (hmatcher.readsIn scope)
  apply ReadsIn.bind hscan.readsIn_scan
  apply ReadsIn.bind ((reads_options_spaces hskip rest).readsIn scope)
  exact (reads_pure _ _).readsIn scope

theorem takesUnit_of_verbatim (hreader : Verbatim reader fun c => c != '$') {c : Char}
    (hc : c ≠ '$') (scope : Table Value) (rest : Text) :
    TakesUnit reader scope (c :: rest) [c] rest := by
  refine ⟨by simp, .text [c], nofun, rfl, [c], rfl, ?_⟩
  intro s hs _ hahead
  exact hreader.cons s c rest hs hahead (by simpa using hc)

theorem takesUnit_dollar (evaluator : Evaluator) (scope : Table Value) {rest : Text}
    (hrest : ∀ c, rest.head? = some c → c ≠ '{' ∧ Text.isNameChar c = false) :
    TakesUnit (unit evaluator) scope ('$' :: rest) ['$'] rest := by
  refine ⟨by simp, .text ['$'], nofun, rfl, ['$'], rfl, ?_⟩
  intro s hs _ hahead
  obtain ⟨hs₁, hahead₁⟩ := ahead_of_cons hs hahead
  unfold unit
  rw [bind_of_ok (char_eq hs), hahead]
  refine (bind_of_ok (peek_eq hs₁)).trans ?_
  rw [hahead₁]
  cases hhead : rest.head? with
  | none => rfl
  | some c =>
    obtain ⟨hbrace, hname⟩ := hrest c hhead
    simp only [hbrace, hname, Bool.false_eq_true, ↓reduceIte]
    rfl

theorem takesUnit_variable (evaluator : Evaluator) {name rest : Text} (hne : name ≠ [])
    (hname : ∀ c ∈ name, Text.isNameChar c = true)
    (hrest : ∀ c, rest.head? = some c → Text.isNameChar c = false)
    (hfind : scope.find? name = some v) (hv : v ≠ .null) (htext : v.text? = some u) :
    TakesUnit (unit evaluator) scope ('$' :: name ++ rest) u rest := by
  have hlength : rest.length < ('$' :: name ++ rest).length := by
    simp only [List.cons_append, List.length_cons, List.length_append]
    omega
  refine ⟨hlength, v, hv, htext, '$' :: name, rfl, ?_⟩
  intro s hs hscope hahead
  obtain ⟨hs₁, hahead₁⟩ :
      (s.advance 1).cursor.InText ∧ (s.advance 1).cursor.ahead = name ++ rest :=
    ahead_of_cons hs hahead
  have hvalue : variableValue (s.advance 1) = .ok v (s.advance ('$' :: name).length) := by
    have hcount : 1 + (name.length : Int) = ('$' :: name).length := by
      rw [List.length_cons]
      omega
    have hbound : (s.advance ('$' :: name).length).cursor.scope.find? name = some v := by
      rw [← hfind, ← hscope]
      rfl
    unfold variableValue
    rw [index_bind, bind_of_ok (name_eq hs₁), cursor_bind, hahead₁,
      Text.takeWhile_append_of_head? hname hrest, State.advance_advance, hcount]
    simp only [hbound]
    rfl
  unfold unit
  rw [bind_of_ok (char_eq hs), hahead]
  refine (bind_of_ok (peek_eq hs₁)).trans ?_
  rw [hahead₁]
  cases name with
  | nil => exact absurd rfl hne
  | cons c name =>
    have hc := hname c List.mem_cons_self
    have hbrace : c ≠ '{' := by
      rintro rfl
      cases hc
    simp only [List.cons_append, List.head?_cons, hbrace, hc, ↓reduceIte]
    exact hvalue

end Read

end LineScript
