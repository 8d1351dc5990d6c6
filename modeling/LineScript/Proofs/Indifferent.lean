import LineScript.Proofs.Rounds

/-!
This module contains the comparison of two runs of the same text that have different variables. As
long as no dollar sign is met, the runs read the same characters and find the same commands, so what
the variables hold makes no difference. A loop over such a text does the same in every round.
-/

namespace LineScript

/--
The cursors are the same but for the variables.
-/
def Cursor.Alike (c c' : Cursor) : Prop := ∃ scope, c' = { c with scope }

/--
The states are the same but for the variables.
-/
def State.Alike (s s' : State) : Prop := ∃ scope, s' = { s with cursor := { s.cursor with scope } }

/--
The cursor is in the text `t`, at `b` or further on, where no dollar sign can be met. It is after the
end of the text only if `b` is.
-/
structure Cursor.Inside (t : Text) (b : Int) (c : Cursor) : Prop where
  buffer_eq : c.buffer = t
  le_index : b ≤ c.index
  index_le : c.index ≤ max b t.length
  clear : '$' ∉ t.drop b.toNat

/--
The rounds of a loop did not take the same number of characters.
-/
def Stop.Uneven : Stop → Prop
  | .fault f => ∃ iteration delta, f.kind = .inconsistentIteration iteration delta
  | _ => False

theorem Cursor.le_of_position? {c : Cursor} {n : Nat} (h : c.position? = some n) : c.index ≤ n := by
  unfold position? at h
  split at h
  . next m hm =>
    cases h
    exact Int.le_of_eq hm
  . omega

theorem Cursor.Inside.advance_token {c : Cursor} {t : Text} {b : Int} (h : c.Inside t b) {token : Text}
    (htoken : c.atToken token = true) : (c.advance token.length).Inside t b := by
  obtain ⟨rfl, hle, hindex, hclear⟩ := h
  simp only [atToken, Text.startsWith, Bool.and_eq_true, decide_eq_true_eq,
    List.isPrefixOf_iff_prefix] at htoken
  obtain ⟨hstart, hprefix⟩ := htoken
  have hlength := hprefix.length_le
  rw [List.length_drop] at hlength
  refine ⟨rfl, ?_, ?_, hclear⟩
  . rw [advance_index]
    omega
  . rw [advance_index]
    split at hstart
    . omega
    . omega

theorem Cursor.Inside.not_mem_ahead {c : Cursor} {t : Text} {b : Int} (h : c.Inside t b) :
    '$' ∉ c.ahead := by
  obtain ⟨rfl, hle, -, hclear⟩ := h
  have hdrop : b.toNat ≤ c.index.toNat := by omega
  exact fun hmem => hclear ((List.drop_sublist_drop_left c.buffer hdrop).subset hmem)

theorem Cursor.inside_self {c : Cursor} (h : '$' ∉ c.ahead) : c.Inside c.buffer c.index :=
  ⟨rfl, Int.le_refl _, Int.le_max_left .., h⟩

namespace Eval

open Cursor

variable {α β : Type}

/--
Both runs come to an end with the same value, or they stop for the same reason, which is no uneven
loop. The states that they leave are alike.
-/
inductive SameEnd (Q : α → State → Prop) :
    EStateM.Result Stop State α → EStateM.Result Stop State α → Prop
  | ok {a : α} {s s' : State} (hs : s.Alike s') (ha : Q a s) : SameEnd Q (.ok a s) (.ok a s')
  | error {e : Stop} {s s' : State} (hs : s.Alike s') (he : ¬ e.Uneven) :
    SameEnd Q (.error e s) (.error e s')

/--
From states that are alike, with the cursor in `I`, both computations come to the same end. If there
is a value then it is in `R`, and the cursor is still in `I`.
-/
def Agree (I : Cursor → Prop) (x x' : Eval α) (R : α → Prop) : Prop :=
  ∀ s s' : State, s.Alike s' → I s.cursor → SameEnd (fun a s => I s.cursor ∧ R a) (x s) (x' s')

variable {I J : Cursor → Prop} {x x' : Eval α} {f f' : α → Eval β} {R : α → Prop} {Q : β → Prop}

theorem SameEnd.bind {P : α → State → Prop} {P' : β → State → Prop} {s s' : State}
    (hx : SameEnd P (x s) (x' s'))
    (hf : ∀ a s₁ s₁', s₁.Alike s₁' → P a s₁ → x s = .ok a s₁ → SameEnd P' (f a s₁) (f' a s₁')) :
    SameEnd P' ((x >>= f) s) ((x' >>= f') s') := by
  generalize hr : x s = r, hr' : x' s' = r' at hx
  cases hx with
  | ok hs₁ ha =>
    rw [bind_of_ok hr, bind_of_ok hr']
    exact hf _ _ _ hs₁ ha hr
  | error hs₁ he =>
    rw [bind_of_error hr, bind_of_error hr']
    exact .error hs₁ he

theorem Agree.bind (hx : Agree I x x' R) (hf : ∀ a, R a → Agree I (f a) (f' a) Q) :
    Agree I (x >>= f) (x' >>= f') Q := by
  intro s s' hs hI
  apply (hx s s' hs hI).bind
  rintro a s₁ s₁' hs₁ ⟨hI₁, ha⟩ -
  exact hf a ha s₁ s₁' hs₁ hI₁

theorem agree_pure {a : α} (ha : R a) : Agree I (pure a) (pure a) R :=
  fun _ _ hs hI => .ok hs ⟨hI, ha⟩

theorem agree_throw {e : Stop} (he : ¬ e.Uneven) : Agree I (throw e) (throw e) R :=
  fun _ _ hs _ => .error hs he

theorem agree_fail (failure : Failure) : Agree I (fail failure) (fail failure) R := agree_throw id

theorem agree_orFail (failure : Failure) (o : Option α) :
    Agree I (orFail failure o) (orFail failure o) fun _ => True := by
  cases o with
  | none => exact agree_fail failure
  | some a => exact agree_pure trivial

theorem agree_cursor_bind {f f' : Cursor → Eval β}
    (hf : ∀ c c', I c → c.Alike c' → Agree I (f c) (f' c') Q) :
    Agree I (cursor >>= f) (cursor >>= f') Q := by
  rintro s _ ⟨scope, rfl⟩ hI
  exact hf s.cursor _ hI ⟨scope, rfl⟩ s _ ⟨scope, rfl⟩ hI

theorem agree_fault {cause : Cause} (i : Int)
    (hcause : ∀ iteration delta, cause.kind ≠ .inconsistentIteration iteration delta) :
    Agree I (fault cause i) (fault cause i) R := by
  apply agree_cursor_bind
  rintro c _ _ ⟨scope, rfl⟩
  apply agree_throw
  rintro ⟨iteration, delta, hkind⟩
  exact hcause iteration delta hkind

theorem agree_fault_bind {cause : Cause} (i : Int)
    (hcause : ∀ iteration delta, cause.kind ≠ .inconsistentIteration iteration delta) :
    Agree I (fault cause i >>= f) (fault cause i >>= f') Q :=
  (agree_fault (R := fun _ => False) i hcause).bind fun _ h => h.elim

theorem agree_record (event : Event) : Agree I (record event) (record event) fun _ => True := by
  rintro s _ ⟨scope, rfl⟩ hI
  exact .ok ⟨scope, rfl⟩ ⟨hI, trivial⟩

theorem agree_trace (words : List (Option Text)) :
    Agree I (trace words) (trace words) fun _ => True := by
  rintro s _ ⟨scope, rfl⟩ hI
  have hget : ∀ s : State, (get : Eval State) s = .ok s s := fun _ => rfl
  unfold trace
  rw [bind_of_ok (hget _), bind_of_ok (hget _)]
  dsimp only
  split
  . refine (agree_record _).bind ?_ s _ ⟨scope, rfl⟩ hI
    intro _ _
    split
    . exact agree_pure trivial
    . exact agree_fail _
  . exact .ok ⟨scope, rfl⟩ ⟨hI, trivial⟩

theorem agree_within {c c' : Cursor} (hc : J c) (hcc : c.Alike c') (hx : Agree J x x' R) :
    Agree I (within c x) (within c' x') R := by
  rintro s _ ⟨scope, rfl⟩ hI
  obtain ⟨inner, rfl⟩ := hcc
  let s' : State := { s with cursor := { s.cursor with scope } }
  have hend := hx { s with cursor := c } { s' with cursor := { c with scope := inner } }
    ⟨inner, rfl⟩ hc
  generalize hr : x _ = r, hr' : x' _ = r' at hend
  cases hend with
  | ok hs₁ ha =>
    obtain ⟨_, rfl⟩ := hs₁
    rw [within_of_ok hr, within_of_ok (s := s') hr']
    exact .ok ⟨scope, rfl⟩ ⟨hI, ha.2⟩
  | error hs₁ he =>
    obtain ⟨_, rfl⟩ := hs₁
    rw [within_of_error hr, within_of_error (s := s') hr']
    exact .error ⟨scope, rfl⟩ he

end Eval

namespace Read

open Eval Cursor

variable {t : Text} {b : Int} {s : State} {reader : Eval Value}

/--
The places that a cursor may have when it is inside the text.
-/
abbrev PlaceIn (t : Text) (b i : Int) : Prop := b ≤ i ∧ i ≤ max b t.length

theorem agree_index : Agree (Inside t b) index index (PlaceIn t b) := by
  rintro s _ ⟨scope, rfl⟩ hs
  exact .ok ⟨scope, rfl⟩ ⟨hs, hs.le_index, hs.index_le⟩

theorem agree_moveTo {i : Int} (hi : PlaceIn t b i) :
    Agree (Inside t b) (moveTo i) (moveTo i) fun _ => True := by
  rintro s _ ⟨scope, rfl⟩ hs
  exact .ok ⟨scope, rfl⟩ ⟨⟨hs.buffer_eq, hi.1, hi.2, hs.clear⟩, trivial⟩

/--
What is at the cursor does not depend on the variables. If it is a character then it is no dollar
sign, and there is a place after it.
-/
theorem peek_cases (hs : s.cursor.Inside t b) :
    (∃ failure, ∀ s', s.Alike s' → peek s' = .error (.failure failure) s') ∨
      ∃ o, (∀ c, o = some c → c ≠ '$' ∧ (s.advance 1).cursor.Inside t b) ∧
        ∀ s', s.Alike s' → peek s' = .ok o s' := by
  obtain ⟨rfl, hle, hindex, hclear⟩ := hs
  cases hposition : s.cursor.position? with
  | none =>
    left
    refine ⟨if s.cursor.index < leastIndex then .outOfReach else .outOfText, ?_⟩
    rintro _ ⟨scope, rfl⟩
    have hposition' : { s.cursor with scope }.position? = none := hposition
    unfold peek
    rw [cursor_bind, hposition']
    rfl
  | some n =>
    right
    refine ⟨s.cursor.buffer[n]?, ?_, ?_⟩
    . intro c hc
      have hplace := le_of_position? hposition
      have hn := (List.getElem?_eq_some_iff.mp hc).1
      constructor
      . rintro rfl
        apply hclear
        apply List.mem_of_getElem? (i := n - b.toNat)
        rw [List.getElem?_drop, ← hc]
        congr 1
        omega
      . refine ⟨rfl, ?_, ?_, hclear⟩
        . simp only [State.advance_cursor, advance_index]
          omega
        . simp only [State.advance_cursor, advance_index]
          omega
    . rintro _ ⟨scope, rfl⟩
      have hposition' : { s.cursor with scope }.position? = some n := hposition
      unfold peek
      rw [cursor_bind, hposition']
      rfl

theorem agree_spaces_go (budget : Nat) :
    Agree (Inside t b) (spaces.go budget) (spaces.go budget) fun _ => True := by
  induction budget with
  | zero => exact agree_pure trivial
  | succ budget ih =>
    intro s s' hs hin
    unfold spaces.go
    obtain ⟨failure, hpeek⟩ | ⟨o, ho, hpeek⟩ := peek_cases hin
    . rw [bind_of_error (hpeek s ⟨_, rfl⟩), bind_of_error (hpeek s' hs)]
      exact .error hs id
    . rw [bind_of_ok (hpeek s ⟨_, rfl⟩), bind_of_ok (hpeek s' hs)]
      split
      . next hspace =>
        obtain ⟨scope, rfl⟩ := hs
        exact ih (s.advance 1) _ ⟨scope, rfl⟩ (ho ' ' hspace).2
      . exact .ok hs ⟨hin, trivial⟩

theorem agree_spaces : Agree (Inside t b) spaces spaces fun _ => True := by
  unfold spaces
  apply agree_cursor_bind
  rintro c _ _ ⟨scope, rfl⟩
  exact agree_spaces_go _

theorem agree_options_spaces (options : Options) :
    Agree (Inside t b) options.spaces options.spaces fun _ => True := by
  unfold Options.spaces
  split
  . exact agree_spaces
  . exact agree_pure trivial

theorem agree_token (token : Text) :
    Agree (Inside t b) (Read.token token) (Read.token token) fun _ => True := by
  intro s s' hs hin
  have hat : ∀ s' : State, s.Alike s' → atToken token s' = .ok (s.cursor.atToken token) s' := by
    rintro _ ⟨scope, rfl⟩
    rfl
  unfold Read.token
  rw [bind_of_ok (hat s ⟨_, rfl⟩), bind_of_ok (hat s' hs)]
  obtain ⟨scope, rfl⟩ := hs
  split
  . next htoken => exact .ok ⟨scope, rfl⟩ ⟨hin.advance_token htoken, trivial⟩
  . exact .ok ⟨scope, rfl⟩ ⟨hin, trivial⟩

theorem rawUnit_cases (hs : s.cursor.Inside t b) :
    (∃ failure, ∀ s', s.Alike s' → rawUnit s' = .error (.failure failure) s') ∨
      (∀ s', s.Alike s' → rawUnit s' = .ok .null (s'.advance 1)) ∨
      ∃ c, c ≠ '$' ∧ (s.advance 1).cursor.Inside t b ∧
        ∀ s', s.Alike s' → rawUnit s' = .ok (.text [c]) (s'.advance 1) := by
  obtain ⟨failure, hpeek⟩ | ⟨o, ho, hpeek⟩ := peek_cases hs
  . exact Or.inl ⟨failure, fun s' hs' => bind_of_error (bind_of_error (hpeek s' hs'))⟩
  . have hunit : ∀ s', s.Alike s' → rawUnit s' = .ok (.ofChar? o) (s'.advance 1) :=
      fun s' hs' => bind_of_ok (bind_of_ok (hpeek s' hs'))
    right
    cases o with
    | none => exact Or.inl hunit
    | some c => exact Or.inr ⟨c, (ho c rfl).1, (ho c rfl).2, hunit⟩

/--
In the text the reader takes characters as they are.
-/
def ReadsRaw (t : Text) (b : Int) (reader : Eval Value) : Prop :=
  ∀ s : State, s.cursor.Inside t b → reader s = rawUnit s

theorem readsRaw_rawUnit (t : Text) (b : Int) : ReadsRaw t b rawUnit := fun _ _ => rfl

theorem readsRaw_unit (evaluator : Evaluator) : ReadsRaw t b (unit evaluator) := by
  intro s hs
  unfold unit rawUnit char
  simp only [bind_assoc, pure_bind]
  obtain ⟨failure, hpeek⟩ | ⟨o, ho, hpeek⟩ := peek_cases hs
  . rw [bind_of_error (hpeek s ⟨_, rfl⟩), bind_of_error (hpeek s ⟨_, rfl⟩)]
  . have hadvance : Eval.advance 1 s = .ok () (s.advance 1) := rfl
    rw [bind_of_ok (hpeek s ⟨_, rfl⟩), bind_of_ok (hpeek s ⟨_, rfl⟩), bind_of_ok hadvance,
      bind_of_ok hadvance]
    split
    . exact absurd rfl (ho '$' rfl).1
    . rfl

theorem agree_scan_go {σ : Type} {judge : σ → Text → Verdict σ} {R : σ → Prop}
    (hreader : ReadsRaw t b reader) (hjudge : ∀ d c, R d → c ≠ '$' → (judge d [c]).Satisfies R)
    (budget : Nat) {d : σ} (hd : R d) :
    Agree (Inside t b) (scan.go reader judge budget d) (scan.go reader judge budget d) R := by
  induction budget generalizing d with
  | zero => exact agree_throw id
  | succ budget ih =>
    rintro s _ ⟨scope, rfl⟩ hin
    let s' : State := { s with cursor := { s.cursor with scope } }
    have hin' : s'.cursor.Inside t b := ⟨hin.buffer_eq, hin.le_index, hin.index_le, hin.clear⟩
    have hread : ∀ {r : State → EStateM.Result Stop State Value},
        (∀ s', s.Alike s' → rawUnit s' = r s') → reader s = r s ∧ reader s' = r s' := fun hunit =>
      ⟨(hreader s hin).trans (hunit s ⟨_, rfl⟩), (hreader s' hin').trans (hunit s' ⟨scope, rfl⟩)⟩
    unfold scan.go
    rw [index_bind, index_bind]
    obtain ⟨failure, hunit⟩ | hunit | ⟨c, hc, hnext, hunit⟩ := rawUnit_cases hin
    . obtain ⟨hs, hs'⟩ := hread hunit
      rw [bind_of_error hs, bind_of_error hs']
      exact .error ⟨scope, rfl⟩ id
    . obtain ⟨hs, hs'⟩ := hread hunit
      rw [bind_of_ok hs, bind_of_ok hs']
      exact .ok ⟨scope, rfl⟩ ⟨hin, hd⟩
    . obtain ⟨hs, hs'⟩ := hread hunit
      rw [bind_of_ok hs, bind_of_ok hs']
      have hverdict := hjudge d c hd hc
      have htext : textOf (.text [c]) = pure [c] := rfl
      dsimp only
      rw [htext, pure_bind]
      cases hcase : judge d [c] with
      | next d' =>
        rw [hcase] at hverdict
        exact ih hverdict (s.advance 1) (s'.advance 1) ⟨scope, rfl⟩ hnext
      | keep d' =>
        rw [hcase] at hverdict
        exact .ok ⟨scope, rfl⟩ ⟨hnext, hverdict⟩
      | giveBack d' =>
        rw [hcase] at hverdict
        exact .ok ⟨scope, rfl⟩ ⟨hin, hverdict⟩
      | refuse failure => exact .error ⟨scope, rfl⟩ id

theorem agree_scan {σ : Type} {judge : σ → Text → Verdict σ} {R : σ → Prop}
    (hreader : ReadsRaw t b reader) (hjudge : ∀ d c, R d → c ≠ '$' → (judge d [c]).Satisfies R)
    {start : σ} (hstart : R start) :
    Agree (Inside t b) (scan reader judge start) (scan reader judge start) R := by
  unfold scan
  apply agree_cursor_bind
  rintro c _ _ ⟨scope, rfl⟩
  exact agree_scan_go hreader hjudge _ hstart

theorem agree_matcher (options : StringOptions) :
    Agree (Inside t b) options.matcher options.matcher fun _ => True := by
  unfold StringOptions.matcher
  split
  . exact agree_pure trivial
  . apply (agree_token _).bind
    intro found _
    exact agree_pure trivial

theorem satisfies_judgeString_clear (endAtSemicolon keepStop : Bool) (stop : Matcher) (d : Draft)
    (c : Char) (hd : '$' ∉ d.reversed) (hc : c ≠ '$') :
    (judgeString endAtSemicolon keepStop stop d [c]).Satisfies fun d => '$' ∉ d.reversed := by
  have happend : '$' ∉ (d.append [c]).reversed :=
    List.not_mem_cons_of_ne_of_not_mem (Ne.symm hc) hd
  unfold judgeString
  split
  . exact happend
  . split
    . exact hd
    . split
      . split
        . exact hd
        . exact hd
      . split
        . exact hd
        . exact happend

theorem agree_string (hreader : ReadsRaw t b reader) (options : StringOptions) :
    Agree (Inside t b) (string reader options) (string reader options) fun text => '$' ∉ text := by
  unfold string
  apply (agree_options_spaces _).bind
  intro _ _
  apply (agree_matcher options).bind
  intro stop _
  apply (agree_scan hreader (satisfies_judgeString_clear _ _ stop) List.not_mem_nil).bind
  intro d hd
  apply (agree_options_spaces _).bind
  intro _ _
  apply agree_pure
  rwa [Draft.text, List.mem_reverse]

theorem agree_int (hreader : ReadsRaw t b reader) (options : Options) :
    Agree (Inside t b) (int reader options) (int reader options) fun _ => True := by
  have hspaces : ∀ i : Option Int, Agree (Inside t b) (options.spaces >>= fun _ => pure i)
      (options.spaces >>= fun _ => pure i) fun _ => True := fun i =>
    (agree_options_spaces _).bind fun _ _ => agree_pure trivial
  unfold int
  apply (agree_options_spaces _).bind
  intro _ _
  apply agree_index.bind
  intro start hstart
  apply (agree_token _).bind
  intro negative _
  refine Agree.bind (R := fun _ => True) (agree_scan hreader ?_ trivial) ?_
  . intro d c _ _
    cases judgeDigit options.endAtSemicolon d [c] <;> trivial
  . intro d _
    generalize d.value.map _ = i
    dsimp only
    split
    . exact (agree_moveTo hstart).bind fun _ _ => hspaces _
    . exact hspaces _

end Read

open Eval Cursor Read

section Loops

variable {t : Text} {b : Int} {commands : Eval Unit} {s s' : State}

/--
Wherever no dollar sign is ahead, the computation does not depend on the variables.
-/
def Eval.Indifferent {α : Type} (x : Eval α) : Prop :=
  ∀ (t : Text) (b : Int), Agree (Inside t b) x x fun _ => True

theorem round_of_ok {name : Text} {element : Value} {a : Unit}
    (h : commands { s with cursor := s.cursor.assign name element, log := #[] } = .ok a s') :
    s.round commands name element = ⟨.ok (s'.cursor.index - s.cursor.index), s'.log⟩ := by
  unfold State.round
  rw [h]

theorem round_of_error {name : Text} {element : Value} {stop : Stop}
    (h : commands { s with cursor := s.cursor.assign name element, log := #[] } = .error stop s') :
    s.round commands name element = ⟨.error stop, s'.log⟩ := by
  unfold State.round
  rw [h]

/--
The round does not depend on the element, nor on the other variables or on the log.
-/
theorem round_eq (hcommands : Indifferent commands) (hclear : '$' ∉ s.cursor.ahead)
    (hcursor : s.cursor.Alike s'.cursor) (htracing : s'.tracing = s.tracing) (name : Text)
    (element element' : Value) :
    s'.round commands name element' = s.round commands name element := by
  obtain ⟨scope, hcursor⟩ := hcursor
  let alone : State := { s with cursor := s.cursor.assign name element, log := #[] }
  let alone' : State := { s' with cursor := s'.cursor.assign name element', log := #[] }
  have halike : alone.Alike alone' := by
    simp only [alone', hcursor, htracing]
    exact ⟨_, rfl⟩
  have hend := hcommands s.cursor.buffer s.cursor.index alone alone' halike
    (inside_self (c := s.cursor.assign name element) hclear)
  generalize hr : commands alone = r, hr' : commands alone' = r' at hend
  cases hend with
  | ok hs _ =>
    obtain ⟨_, rfl⟩ := hs
    rw [round_of_ok hr, round_of_ok hr', hcursor]
  | error hs _ =>
    obtain ⟨_, rfl⟩ := hs
    rw [round_of_error hr, round_of_error hr']

theorem round_of_indifferent (hcommands : Indifferent commands) (hclear : '$' ∉ s.cursor.ahead)
    (name : Text) (element : Value) :
    match (s.round commands name element).offset with
    | .ok d => 0 ≤ d ∧ s.cursor.index + d ≤ max s.cursor.index s.cursor.buffer.length
    | .error stop => ¬ stop.Uneven := by
  let alone : State := { s with cursor := s.cursor.assign name element, log := #[] }
  have hend := hcommands s.cursor.buffer s.cursor.index alone alone ⟨_, rfl⟩
    (inside_self (c := s.cursor.assign name element) hclear)
  generalize hr : commands alone = r at hend
  cases hend with
  | ok _ hin =>
    have hle := hin.1.le_index
    have hindex := hin.1.index_le
    rw [round_of_ok hr]
    dsimp only
    omega
  | error _ heven =>
    rw [round_of_error hr]
    exact heven

theorem offset_of_runElement (hcommands : Orderly commands) {name : Text} {element : Value}
    {offset : Int} (h : runElement commands name element s = .ok offset s') :
    (s.round commands name element).offset = .ok offset ∧ ∃ log, s' = s.logged log := by
  have hwithin := within_eq_round hcommands name element s
  have hyields : Yields (runElement commands name element) s
      (fun offset s' => (s.round commands name element).offset = .ok offset ∧ ∃ log, s' = s.logged log)
      fun _ _ => True := by
    unfold runElement
    rw [yields_bind, yields_cursor, yields_bind]
    cases hround : (s.round commands name element).offset with
    | error stop =>
      rw [hround] at hwithin
      unfold Yields
      rw [hwithin]
      trivial
    | ok d =>
      rw [hround] at hwithin
      rw [yields_of_eq_ok hwithin, yields_bind]
      refine yields_orFail ?_ fun _ => trivial
      intro shown _
      rw [yields_bind]
      refine yields_trace ?_ fun _ => trivial
      intro log
      exact ⟨rfl, log, rfl⟩
  exact hyields.of_ok h

theorem agree_runElement (hcommands : Indifferent commands) (name : Text) (element : Value) :
    Agree (Inside t b) (runElement commands name element) (runElement commands name element)
      fun _ => True := by
  unfold runElement
  apply agree_cursor_bind
  rintro c _ hin ⟨scope, rfl⟩
  have hc : (c.assign name element).Inside t b :=
    ⟨hin.buffer_eq, hin.le_index, hin.index_le, hin.clear⟩
  refine Agree.bind (R := fun _ => True) (agree_within hc ⟨_, rfl⟩ ?_) ?_
  . apply (hcommands t b).bind
    intro _ _
    apply agree_index.bind
    intro i _
    exact agree_pure trivial
  . intro offset _
    apply (agree_orFail _ _).bind
    intro shown _
    apply (agree_trace _).bind
    intro _ _
    exact agree_pure trivial

/--
All rounds take the same number of characters, so no loop is uneven.
-/
theorem iterate.sameEnd_go (hcommands : Indifferent commands) (horderly : Orderly commands)
    (hclear : '$' ∉ s.cursor.ahead) (hs : s.Alike s') (name : Text) (elements : Elements)
    (left : Nat) (first : Option Int) (done : List Int)
    (hfirst : ∀ d, (s.round commands name .null).offset = .ok d → first.getD d = d)
    (hdone : ∀ d ∈ done, (s.round commands name .null).offset = .ok d) :
    SameEnd (fun offsets s₁ => s₁.cursor = s.cursor ∧
        ∀ d ∈ offsets, (s.round commands name .null).offset = .ok d)
      (go commands name elements left first done s) (go commands name elements left first done s') := by
  induction left generalizing s s' first done with
  | zero =>
    refine .ok hs ⟨rfl, ?_⟩
    simpa using hdone
  | succ left ih =>
    unfold go
    apply (agree_runElement hcommands name _ s s' hs (inside_self hclear)).bind
    intro offset s₁ s₁' hs₁ _ hrun
    obtain ⟨hround, log, rfl⟩ := offset_of_runElement horderly hrun
    rw [round_eq hcommands hclear ⟨_, rfl⟩ rfl name .null] at hround
    -- the log has grown, and that makes no difference to the next round
    have hsame : (s.logged log).round commands name .null = s.round commands name .null :=
      round_eq hcommands hclear ⟨_, rfl⟩ rfl name .null .null
    dsimp only
    rw [hfirst offset hround, if_neg (not_not_intro rfl)]
    have hleft := ih (s := s.logged log) hclear hs₁ (some offset) (offset :: done)
    rw [hsame] at hleft
    apply hleft
    . intro d hd
      rw [hround] at hd
      cases hd
      rfl
    . exact List.forall_mem_cons.mpr ⟨hround, hdone⟩

theorem agree_iterate (hcommands : Indifferent commands) (horderly : Orderly commands)
    (name : Text) (elements : Elements) :
    Agree (Inside t b) (iterate commands name elements) (iterate commands name elements)
      fun _ => True := by
  intro s s' hs hin
  have hahead := hin.not_mem_ahead
  obtain ⟨rfl, hle, hindex, hclear⟩ := hin
  unfold iterate
  apply (iterate.sameEnd_go hcommands horderly hahead hs name elements elements.size none []
    (fun _ _ => rfl) (List.forall_mem_nil _)).bind
  rintro offsets s₁ s₁' ⟨scope, rfl⟩ ⟨hcursor, hoffsets⟩ -
  split
  . next d hd =>
    -- the cursor comes where the rounds ended, and they are confined to the text
    have hbounds := round_of_indifferent hcommands hahead name .null
    rw [hoffsets d (List.mem_of_mem_head? hd)] at hbounds
    obtain ⟨hnonneg, hbound⟩ := hbounds
    have hadvance : (s₁.advance d).cursor.Inside s.cursor.buffer b := by
      rw [State.advance_cursor, hcursor]
      refine ⟨rfl, ?_, ?_, hclear⟩
      . rw [advance_index]
        omega
      . rw [advance_index]
        omega
    exact .ok ⟨scope, rfl⟩ ⟨hadvance, trivial⟩
  . refine .ok ⟨scope, rfl⟩ ⟨?_, trivial⟩
    rw [hcursor]
    exact ⟨rfl, hle, hindex, hclear⟩

end Loops

/--
What the evaluator runs does not depend on the variables, as long as no dollar sign is met.
-/
structure Evaluator.Indifferent (evaluator : Evaluator) : Prop where
  command : evaluator.command.Indifferent
  commands : evaluator.commands.Indifferent
  orderly : Orderly evaluator.commands

namespace Standard

variable {t : Text} {b : Int} {evaluator : Evaluator}

theorem agree_range (hunit : ReadsRaw t b evaluator.unit) :
    Agree (Inside t b) (range evaluator) (range evaluator) fun _ => True := by
  have hint := agree_int hunit {}
  unfold range
  apply agree_index.bind
  intro place _
  apply hint.bind
  intro start _
  split
  . apply hint.bind
    intro stop _
    apply agree_index.bind
    intro stepPlace _
    apply hint.bind
    intro step _
    dsimp only
    split
    . exact agree_fault_bind _ nofun
    . split
      . exact agree_pure trivial
      . exact agree_pure trivial
  . exact agree_fault _ nofun

theorem agree_say (hunit : ReadsRaw t b evaluator.unit) :
    Agree (Inside t b) (say evaluator) (say evaluator) fun _ => True := by
  unfold say
  apply (agree_string hunit _).bind
  intro message _
  apply (agree_record _).bind
  intro _ _
  exact agree_pure trivial

theorem agree_emptyLoopWarnings {I : Cursor → Prop} :
    Agree I (emptyLoopWarnings.forM (emit .stderr)) (emptyLoopWarnings.forM (emit .stderr))
      fun _ => True := by
  apply (agree_record _).bind
  intro _ _
  apply (agree_record _).bind
  intro _ _
  exact agree_pure trivial

theorem agree_forEach (hunit : ReadsRaw t b evaluator.unit) (h : evaluator.Indifferent) :
    Agree (Inside t b) (forEach evaluator) (forEach evaluator) fun _ => True := by
  unfold forEach
  apply agree_index.bind
  intro place _
  apply (agree_string (readsRaw_rawUnit t b) _).bind
  intro name _
  dsimp only
  split
  . exact agree_fault_bind _ nofun
  . apply agree_spaces.bind
    intro _ _
    apply agree_index.bind
    intro place _
    apply (agree_string hunit _).bind
    intro specifier _
    split
    . apply agree_index.bind
      intro place _
      apply (h.command t b).bind
      intro v _
      split
      . apply agree_index.bind
        intro place _
        apply (agree_string hunit _).bind
        intro action _
        split
        . apply (agree_iterate h.commands h.orderly name _).bind
          intro offsets _
          split
          . exact agree_emptyLoopWarnings.bind fun _ _ => agree_pure trivial
          . exact agree_pure trivial
        . exact agree_fault_bind _ nofun
      . exact (agree_orFail _ _).bind fun shown _ => agree_fault _ nofun
    . exact agree_fault_bind _ nofun

theorem agree_block (hunit : ReadsRaw t b evaluator.unit) (h : evaluator.Indifferent) :
    Agree (Inside t b) (block evaluator) (block evaluator) fun _ => True := by
  unfold block
  apply (agree_string hunit _).bind
  intro text htext
  apply agree_cursor_bind
  rintro c _ _ ⟨scope, rfl⟩
  -- the text of the block is made of characters of this one, so it has no dollar sign either
  have hspawn : (c.spawn text).Inside text 0 := inside_self (c := c.spawn text) htext
  apply (agree_within hspawn ⟨_, rfl⟩ (h.commands text 0)).bind
  intro _ _
  exact agree_pure trivial

theorem agree_sleep (hunit : ReadsRaw t b evaluator.unit) :
    Agree (Inside t b) (sleep evaluator) (sleep evaluator) fun _ => True := by
  unfold sleep
  apply agree_index.bind
  intro place _
  apply (agree_int hunit _).bind
  intro duration _
  split
  . apply (agree_orFail _ _).bind
    intro seconds _
    apply (agree_record _).bind
    intro _ _
    exact agree_pure trivial
  . exact agree_fault _ nofun

theorem agree_giveBack (hunit : ReadsRaw t b evaluator.unit) :
    Agree (Inside t b) (giveBack evaluator) (giveBack evaluator) fun _ => True := by
  unfold giveBack
  apply (agree_string hunit _).bind
  intro text _
  exact agree_pure trivial

theorem agree_body {name : Text} {command : Command} (hlookup : registry.lookup name = some command)
    (hunit : ReadsRaw t b evaluator.unit) (h : evaluator.Indifferent) :
    Agree (Inside t b) (command.body evaluator) (command.body evaluator) fun _ => True := by
  obtain ⟨-, hbody⟩ | ⟨-, hbody⟩ | ⟨-, hbody⟩ | ⟨-, hbody⟩ | ⟨-, hbody⟩ | ⟨-, hbody⟩ :=
    lookup_cases hlookup
  . exact hbody ▸ agree_forEach hunit h
  . exact hbody ▸ agree_range hunit
  . exact hbody ▸ agree_giveBack hunit
  . exact hbody ▸ agree_say hunit
  . exact hbody ▸ agree_sleep hunit
  . exact hbody ▸ agree_block hunit h

theorem agree_findCommand {unit : Eval Value} (hunit : ReadsRaw t b unit) :
    Agree (Inside t b) (findCommand registry unit) (findCommand registry unit) fun found =>
      ∀ command, found = some command → ∃ name, registry.lookup name = some command := by
  unfold findCommand
  apply agree_spaces.bind
  intro _ _
  apply agree_index.bind
  intro start _
  apply (agree_string hunit _).bind
  intro name _
  split
  . exact agree_pure nofun
  . split
    . exact agree_fault _ nofun
    . next command hlookup =>
      apply agree_cursor_bind
      rintro c _ _ ⟨scope, rfl⟩
      apply (agree_trace _).bind
      intro _ _
      apply agree_pure
      rintro _ ⟨⟩
      exact ⟨name, hlookup⟩

theorem indifferent_command_above (h : evaluator.Indifferent) :
    (Evaluator.above registry evaluator).command.Indifferent := by
  intro t b
  have hunit : ReadsRaw t b (Read.unit evaluator) := readsRaw_unit evaluator
  apply (agree_findCommand hunit).bind
  intro found hfound
  split
  . exact agree_pure trivial
  . next command =>
    obtain ⟨name, hlookup⟩ := hfound command rfl
    exact agree_body hlookup hunit ⟨h.command, h.commands, h.orderly⟩

theorem indifferent_ofLevel (level : Nat) : (Evaluator.ofLevel registry level).Indifferent := by
  induction level with
  | zero => exact ⟨fun _ _ => agree_throw id, fun _ _ => agree_throw id,
      (Evaluator.orderly_ofLevel orderly_registry 0).commands⟩
  | succ level ih =>
    have hcommand := indifferent_command_above ih
    refine ⟨hcommand, ?_, (Evaluator.orderly_ofLevel orderly_registry (level + 1)).commands⟩
    intro t b
    apply (hcommand t b).bind
    intro v _
    split
    . exact agree_pure trivial
    . exact ih.commands t b

end Standard

theorem exists_error_of_outOfText {s : State} (level : Nat)
    (h : s.cursor.index + s.cursor.buffer.length < 0) :
    ∃ stop, (Evaluator.ofLevel Standard.registry level).commands s = .error stop s := by
  cases level with
  | zero => exact ⟨.exhausted, rfl⟩
  | succ level =>
    have hposition : s.cursor.position? = none := by
      unfold position?
      split
      . next n hn =>
        have hnonneg : 0 ≤ Int.ofNat n := Int.natCast_nonneg n
        omega
      . rw [if_neg (by omega)]
    obtain ⟨stop, hpeek⟩ : ∃ stop, peek s = .error stop s := by
      unfold peek
      rw [cursor_bind, hposition]
      exact ⟨_, rfl⟩
    have hspaces : spaces s = .error stop s := by
      unfold spaces
      rw [cursor_bind]
      cases hremaining : s.cursor.remaining with
      | zero =>
        unfold remaining at hremaining
        omega
      | succ n => exact bind_of_error hpeek
    exact ⟨stop, bind_of_error (bind_of_error (bind_of_error hspaces))⟩

/--
The number of characters that a round took can be written.
-/
theorem isSome_numeral?_of_round {s : State} (level : Nat) {name : Text} {element : Value} {d : Int}
    (hclear : '$' ∉ s.cursor.ahead)
    (hlength : s.cursor.index < 0 → (s.cursor.buffer.length : Int) ≤ -leastIndex)
    (h : (s.round (Evaluator.ofLevel Standard.registry level).commands name element).offset = .ok d) :
    (s.cursor.numeral? d).isSome = true := by
  have hbounds := round_of_indifferent (Standard.indifferent_ofLevel level).commands hclear name element
  rw [h] at hbounds
  obtain ⟨hnonneg, hbound⟩ := hbounds
  unfold numeral?
  split
  . rfl
  . next hlong =>
    have hreach : ¬ s.cursor.index + s.cursor.buffer.length < 0 := by
      intro hout
      obtain ⟨stop, herror⟩ := exists_error_of_outOfText level
        (s := { s with cursor := s.cursor.assign name element, log := #[] }) hout
      rw [round_of_error herror] at h
      cases h
    have hlt : d.natAbs < Nat.pow 10 Numeral.digitLimit := by
      have hpow : 2 * (0x8000000000000000 : Nat) < Nat.pow 10 Numeral.digitLimit := by decide +kernel
      unfold leastIndex at hlength
      omega
    unfold Numeral.ofInt?
    rw [if_pos ((Numeral.length_ofNat_le_iff (by decide)).mpr hlt)]
    rfl

/--
A loop over a text without a dollar sign does in every round what it does in the first one, whatever
the variables hold. No loop in it is uneven. If the first round comes to its end after `d` characters,
all rounds do, the cursor moves by `d`, and the events of the round happen once per element. If the
first round stops, the loop stops for the same reason, after the events of that round. Someone who
watches is told the number of characters, and an index that counts from the end may lead through the
text twice, so then the text must not be longer than an index can reach.
-/
theorem iterate_repeats_first_round (level : Nat) (s : State) (name : Text) (elements : Elements)
    (hclear : '$' ∉ s.cursor.ahead) (hsize : elements.size ≠ 0)
    (hshown : ∀ k < elements.size, ((elements.get k).literal?).isSome = true)
    (hlength : s.tracing = true → s.cursor.index < 0 →
      (s.cursor.buffer.length : Int) ≤ -Cursor.leastIndex) :
    let commands := (Evaluator.ofLevel Standard.registry level).commands
    let first := s.round commands name (elements.get 0)
    (∀ d, first.offset = .ok d → ∃ log,
      iterate commands name elements s =
          .ok (List.replicate elements.size d) ((s.logged log).advance d) ∧
        s.log.Adds (List.replicate elements.size first.log.live).flatten log) ∧
    ∀ stop, first.offset = .error stop → ¬ stop.Uneven ∧ ∃ log,
      iterate commands name elements s = .error stop (s.logged log) ∧
        s.log.Adds first.log.live log := by
  intro commands first
  have hcommands : commands.Indifferent := (Standard.indifferent_ofLevel level).commands
  have horderly : Orderly commands := (Standard.indifferent_ofLevel level).orderly
  have hrounds : ∀ k, s.round commands name (elements.get k) = first := fun k =>
    round_eq hcommands hclear ⟨_, rfl⟩ rfl name _ _
  constructor
  . intro d hoffset
    have hwritten : ¬ (s.tracing && (s.cursor.numeral? d).isNone) = true := by
      intro hbroken
      obtain ⟨htracing, hnone⟩ := Bool.and_eq_true_iff.mp hbroken
      have hsome := isSome_numeral?_of_round level hclear (hlength htracing) hoffset
      rw [Option.isNone_iff_eq_none.mp hnone] at hsome
      cases hsome
    have hgoes : ∀ k < elements.size,
        (s.round commands name (elements.get k)).stop? s d k = none := by
      intro k _
      unfold Round.stop?
      rw [hrounds, hoffset]
      dsimp only
      rw [if_neg hwritten, if_pos rfl]
    have hd : ∀ offset, first.offset = .ok offset → offset = d := by
      intro offset hoffset'
      rw [hoffset] at hoffset'
      cases hoffset'
      rfl
    obtain ⟨log, hiterate, hadds⟩ := exists_iterate_ok horderly hshown hd hgoes
    rw [if_neg hsize] at hiterate
    refine ⟨log, hiterate, ?_⟩
    simp only [hrounds, List.flatMap, List.map_const', List.length_range] at hadds
    exact hadds
  . intro stop hoffset
    have heven := round_of_indifferent hcommands hclear name (elements.get 0)
    rw [hoffset] at heven
    have hstop : first.stop? s 0 0 = some stop := by
      unfold Round.stop?
      rw [hoffset]
    obtain ⟨log, hiterate, hadds⟩ := exists_iterate_error horderly hshown
      (fun d hd => nomatch hoffset.symm.trans hd) (Nat.pos_of_ne_zero hsize) nofun hstop
    exact ⟨heven, log, hiterate, by simpa using hadds⟩

/--
Before a loop over a block that mentions no variable.
-/
def beforeRoutine : State :=
  { cursor := { buffer := "for j in range 2 do { say b}".toList }, tracing := true }

theorem iterate_repeats_first_round_routine :
    let commands := (Evaluator.ofLevel Standard.registry 5).commands
    let elements := Elements.ofList [.text "$x".toList, .int 7]
    ∃ log, iterate commands ['i'] elements beforeRoutine =
        .ok [28, 28] ((beforeRoutine.logged log).advance 28) ∧
      beforeRoutine.log.Adds (List.replicate 4 (.effect ⟨.stdout, ['b']⟩)) log := by
  intro commands elements
  have hclear : '$' ∉ beforeRoutine.cursor.ahead := by decide +kernel
  have hshown : ∀ k < elements.size, ((elements.get k).literal?).isSome = true := by decide +kernel
  have hoffset : (beforeRoutine.round commands ['i'] (elements.get 0)).offset = .ok 28 := by
    decide +kernel
  have hevents : (List.replicate 2 (Log.live
      (beforeRoutine.round commands ['i'] (elements.get 0)).log)).flatten =
      List.replicate 4 (.effect ⟨.stdout, ['b']⟩) := by
    decide +kernel
  obtain ⟨hrepeats, -⟩ := iterate_repeats_first_round 5 beforeRoutine ['i'] elements hclear (by decide)
    hshown (fun _ hneg => absurd hneg (by decide))
  obtain ⟨log, hiterate, hadds⟩ := hrepeats 28 hoffset
  rw [← hevents]
  exact ⟨log, hiterate, hadds⟩

end LineScript
