import LineScript.Proofs.Invoke

/-!
This module contains the question how far a command reads. Two runs of one statement are compared, with
different text after its semicolon. A statement keeps to itself if that text makes no difference, and
is not touched. This fails where an argument that is not the last one to be read takes the semicolon:
the reads after it go on in the next statement.
-/

namespace LineScript

def Stop.anonymous : Stop → Stop
  | .fault f => .fault { f with buffer := none }
  | stop => stop

namespace Eval

/--
What a run gives and what it did to the world. The text in which a fault happened is left out.
-/
def outcome : EStateM.Result Stop State Value → Except Stop Value × Log
  | .ok v s => (.ok v, s.log)
  | .error stop s => (.error stop.anonymous, s.log)

def place : EStateM.Result Stop State Value → Int
  | .ok _ s => s.cursor.index
  | .error _ s => s.cursor.index

end Eval

namespace Argument

def IsSigned (t digits : Text) : Prop :=
  (∀ c ∈ digits, Text.isDigit c = true) ∧ (t = digits ∨ t = '-' :: digits)

/--
One number, and after it only spaces, or a second number or a sign that ends the text. The first or the
second of the three numbers of a range is then read up to the end of the text.
-/
def Overruns (A : Text) : Prop :=
  ∃ (i k : Nat) (first second digits digits' : Text), IsSigned first digits ∧ digits ≠ [] ∧
    IsSigned second digits' ∧ A = List.replicate i ' ' ++ first ++ List.replicate k ' ' ++ second

theorem IsSigned.dropSpaces_eq {t digits : Text} (h : IsSigned t digits) : t.dropSpaces = t := by
  obtain ⟨hdigits, rfl | rfl⟩ := h
  . apply Text.dropSpaces_of_head?
    intro hhead
    have hdigit := hdigits ' ' (List.mem_of_mem_head? hhead)
    cases hdigit
  . rfl

theorem IsSigned.left_int {t digits : Text} (h : IsSigned t digits) : (int t).2 = none := by
  have heq := h.dropSpaces_eq
  obtain ⟨hdigits, rfl | rfl⟩ := h
  . obtain ⟨body, hsign, -⟩ | ⟨-, hint⟩ := int_cases t
    . rw [heq] at hsign
      have hdigit := hdigits '-' (hsign ▸ List.mem_cons_self)
      cases hdigit
    . rw [hint, left_unsigned_eq_none, heq]
      exact hdigits
  . exact left_unsigned_eq_none.mpr hdigits

theorem isSigned_of_left_int {t : Text} (h : (int t).2 = none) :
    ∃ digits, IsSigned t.dropSpaces digits ∧ (digits = [] → (int t).1 = none) := by
  obtain ⟨body, hsign, hint⟩ | ⟨-, hint⟩ := int_cases t
  . rw [hint, left_unsigned_eq_none] at h
    refine ⟨body, ⟨h, Or.inr hsign⟩, ?_⟩
    rintro rfl
    rw [hint]
    rfl
  . rw [hint, left_unsigned_eq_none] at h
    refine ⟨t.dropSpaces, ⟨h, Or.inl rfl⟩, ?_⟩
    intro hnil
    rw [hint, hnil]
    rfl

theorem exists_rest_of_int {t left : Text} {v : Int} (hvalue : (int t).1 = some v)
    (hleft : (int t).2 = some left) :
    ∃ first digits rest, IsSigned first digits ∧ digits ≠ [] ∧ t.dropSpaces = first ++ rest ∧
      left = rest.dropSpaces := by
  have hunsigned : ∀ {negative : Bool} {start body : Text},
      (unsigned negative start body).1 = some v → (unsigned negative start body).2 = some left →
      body.takeWhile Text.isDigit ≠ [] ∧ left = Text.dropSpaces (body.dropWhile Text.isDigit) := by
    intro negative start body hvalue hleft
    have hdigits : body.takeWhile Text.isDigit ≠ [] := by
      intro hnil
      simp [unsigned, hnil, value] at hvalue
    cases hdrop : body.dropWhile Text.isDigit with
    | nil => simp [unsigned, hdrop] at hleft
    | cons c rest =>
      rw [left_unsigned hdrop hdigits] at hleft
      exact ⟨hdigits, (Option.some.inj hleft).symm⟩
  have hsigned : ∀ (body : Text) (c : Char), c ∈ body.takeWhile Text.isDigit →
      Text.isDigit c = true := fun _ _ => List.mem_takeWhile_imp
  obtain ⟨body, hsign, hint⟩ | ⟨-, hint⟩ := int_cases t
  . rw [hint] at hvalue hleft
    obtain ⟨hne, rfl⟩ := hunsigned hvalue hleft
    refine ⟨_, _, body.dropWhile Text.isDigit, ⟨hsigned body, Or.inr rfl⟩, hne, ?_, rfl⟩
    rw [hsign, List.cons_append, List.takeWhile_append_dropWhile]
  . rw [hint] at hvalue hleft
    obtain ⟨hne, rfl⟩ := hunsigned hvalue hleft
    refine ⟨_, _, _, ⟨hsigned t.dropSpaces, Or.inl rfl⟩, hne, ?_, rfl⟩
    rw [List.takeWhile_append_dropWhile]

theorem int_of_isSigned {first digits second digits' : Text} (hfirst : IsSigned first digits)
    (hne : digits ≠ []) (hsecond : IsSigned second digits') (k : Nat) :
    ∃ v left, int (first ++ (List.replicate k ' ' ++ second)) = (some v, left) ∧
      (left = none ∨ left = some second) := by
  obtain ⟨hdigits, hsign⟩ := hfirst
  obtain ⟨negative, rfl⟩ : ∃ negative : Bool, first = (if negative then ['-'] else []) ++ digits := by
    cases hsign with
    | inl heq => exact ⟨false, heq⟩
    | inr heq => exact ⟨true, heq⟩
  have hvalue : ∀ {digits : Text}, digits ≠ [] →
      value negative digits = some (Numeral.signed negative digits) := by
    intro digits hne
    simp [value, hne]
  -- something else than a digit after the first number
  have hapart : (∀ c, (List.replicate k ' ' ++ second).head? = some c → Text.isDigit c = false) →
      ∃ v left, int ((if negative then ['-'] else []) ++ digits ++
        (List.replicate k ' ' ++ second)) = (some v, left) ∧ (left = none ∨ left = some second) := by
    intro hrest
    rw [int_append hdigits hne hrest, Text.dropSpaces_replicate, hsecond.dropSpaces_eq, hvalue hne]
    refine ⟨_, _, rfl, ?_⟩
    split
    . exact Or.inl rfl
    . exact Or.inr rfl
  cases k with
  | zero =>
    obtain ⟨hdigits', rfl | rfl⟩ := hsecond
    . have hboth : ∀ c ∈ digits ++ second, Text.isDigit c = true := by
        intro c hc
        exact (List.mem_append.mp hc).elim (hdigits c) (hdigits' c)
      have hint : int ((if negative then ['-'] else []) ++ (digits ++ second) ++ []) = _ :=
        int_append hboth (by simp [hne]) nofun
      rw [hvalue (by simp [hne]), List.append_nil, ← List.append_assoc] at hint
      exact ⟨_, _, hint, Or.inl rfl⟩
    . apply hapart
      rintro c hc
      cases hc
      rfl
  | succ k =>
    apply hapart
    rintro c hc
    cases hc
    rfl

theorem overruns_iff (A : Text) :
    Overruns A ↔ ∃ v, (int A).1 = some v ∧
      ((int A).2 = none ∨ ∃ left, (int A).2 = some left ∧ (int left).2 = none) := by
  constructor
  . rintro ⟨i, k, first, second, digits, digits', hfirst, hne, hsecond, rfl⟩
    obtain ⟨v, left, hint, hleft⟩ := int_of_isSigned hfirst hne hsecond k
    rw [← int_dropSpaces, List.append_assoc, List.append_assoc, Text.dropSpaces_replicate,
      int_dropSpaces, hint]
    refine ⟨v, rfl, ?_⟩
    cases hleft with
    | inl hnone => exact Or.inl hnone
    | inr hsome => exact Or.inr ⟨second, hsome, hsecond.left_int⟩
  . rintro ⟨v, hvalue, hleft | ⟨left, hleft, hleft'⟩⟩
    . -- the first number goes to the end, and the second one is empty
      obtain ⟨i, hi⟩ := A.eq_replicate_append_dropSpaces
      obtain ⟨digits, hsigned, hnone⟩ := isSigned_of_left_int hleft
      have hne : digits ≠ [] := by
        intro hnil
        rw [hnone hnil] at hvalue
        cases hvalue
      refine ⟨i, 0, A.dropSpaces, [], digits, [], hsigned, hne, ⟨nofun, Or.inl rfl⟩, ?_⟩
      simpa using hi
    . obtain ⟨i, hi⟩ := A.eq_replicate_append_dropSpaces
      obtain ⟨first, digits, rest, hfirst, hne, heq, rfl⟩ := exists_rest_of_int hvalue hleft
      obtain ⟨k, hk⟩ := rest.eq_replicate_append_dropSpaces
      obtain ⟨digits', hsecond, -⟩ := isSigned_of_left_int hleft'
      rw [Text.dropSpaces_dropSpaces] at hsecond
      refine ⟨i, k, first, rest.dropSpaces, digits, digits', hfirst, hne, hsecond, ?_⟩
      rw [List.append_assoc, List.append_assoc, ← hk, ← heq, ← hi]

end Argument

theorem Argument.overruns_dropSpaces (t : Text) : Overruns t.dropSpaces ↔ Overruns t := by
  rw [overruns_iff, overruns_iff, int_dropSpaces]

open Eval Cursor Read

variable {s : State} {A B : Text}

/--
Whatever follows the semicolon after `A`, the computation comes to the same outcome, and it does not go
beyond the spaces after the semicolon.
-/
def Confined (x : Eval Value) (A : Text) : Prop :=
  ∀ (index : Int) (log : Log), ∃ o, ∀ (s : State) (B : Text), s.cursor.InText →
    s.cursor.index = index → s.log = log → s.cursor.ahead = A ++ ';' :: B →
    outcome (x s) = o ∧ place (x s) ≤ index + A.length + 1 + (B.takeWhile (· == ' ')).length

theorem index_advance_le {used : Text} {left : Option Text} {index : Int}
    (hused : A ++ ';' :: B = used ++ Text.resume (';' :: B) left) (hindex : s.cursor.index = index) :
    (s.advance used.length).cursor.index ≤
      index + A.length + 1 + (B.takeWhile (· == ' ')).length := by
  have hlength := congrArg List.length hused
  have hspaces := congrArg List.length (List.takeWhile_append_dropWhile (p := (· == ' ')) (l := B))
  have hresume : (B.dropWhile (· == ' ')).length ≤ (Text.resume (';' :: B) left).length := by
    cases left with
    | none => exact Nat.le_refl _
    | some left =>
      unfold Text.resume
      simp only [List.length_append, List.length_cons] at hspaces ⊢
      omega
  simp only [List.length_append, List.length_cons] at hlength hspaces
  simp only [State.advance_cursor, advance_index]
  omega

namespace Standard

variable {evaluator : Evaluator}

theorem reads_int_semicolon (hreader : Verbatim evaluator.unit (· != '$')) (hbare : A.Bare)
    (B : Text) :
    Reads (Read.int evaluator.unit {}) (A ++ ';' :: B) (Argument.int A).1
      (Text.resume (';' :: B) (Argument.int A).2) :=
  reads_argument_int hreader hbare (.semicolon B) (Or.inr (by simp))

theorem confined_say (hreader : Verbatim evaluator.unit (· != '$')) (hbare : A.Bare) :
    Confined (say evaluator) A := by
  intro index log
  refine ⟨(.ok .null, log.push (.effect ⟨.stdout, A.dropSpaces⟩)), ?_⟩
  rintro s B hs hindex rfl hahead
  obtain ⟨used, hused, hsay⟩ := say_eq hs hahead (reads_argument_line hreader hbare (.semicolon B))
  rw [hsay]
  exact ⟨rfl, index_advance_le hused hindex⟩

theorem confined_giveBack (hreader : Verbatim evaluator.unit (· != '$')) (hbare : A.Bare) :
    Confined (giveBack evaluator) A := by
  intro index log
  refine ⟨(.ok (.text (Argument.string A).1), log), ?_⟩
  rintro s B hs hindex rfl hahead
  obtain ⟨used, hused, hgive⟩ :=
    giveBack_eq hs hahead (reads_argument_string hreader hbare (.semicolon B))
  rw [hgive]
  exact ⟨rfl, index_advance_le hused hindex⟩

theorem confined_sleep (hreader : Verbatim evaluator.unit (· != '$')) (hbare : A.Bare) :
    Confined (sleep evaluator) A := by
  intro index log
  have hread := reads_int_semicolon hreader hbare
  cases hduration : (Argument.int A).1 with
  | none =>
    refine ⟨(.error (.fault ⟨.missingDuration, some index, none⟩), log), ?_⟩
    rintro s B hs rfl rfl hahead
    obtain ⟨used, hused, hsleep⟩ := sleep_eq hs hahead (hread B)
    rw [hsleep, hduration]
    exact ⟨rfl, index_advance_le hused rfl⟩
  | some duration =>
    cases hseconds : Binary64.ofRatio duration.toNat 1000 with
    | none =>
      refine ⟨(.error (.failure .overflow), log), ?_⟩
      rintro s B hs rfl rfl hahead
      obtain ⟨used, hused, hsleep⟩ := sleep_eq hs hahead (hread B)
      rw [hsleep, hduration]
      simp only [sleepResult, hseconds]
      exact ⟨rfl, index_advance_le hused rfl⟩
    | some seconds =>
      refine ⟨(.ok .null, log.push (.pause seconds)), ?_⟩
      rintro s B hs rfl rfl hahead
      obtain ⟨used, hused, hsleep⟩ := sleep_eq hs hahead (hread B)
      rw [hsleep, hduration]
      simp only [sleepResult, hseconds]
      exact ⟨rfl, index_advance_le hused rfl⟩

theorem confined_range (hreader : Verbatim evaluator.unit (· != '$')) (hbare : A.Bare)
    (hkeeps : ¬ Argument.Overruns A) : Confined (range evaluator) A := by
  intro index log
  have hread₁ := reads_int_semicolon hreader hbare
  rw [Argument.overruns_iff] at hkeeps
  cases hstart : (Argument.int A).1 with
  | none =>
    refine ⟨(.error (.fault ⟨.missingStart, some index, none⟩), log), ?_⟩
    rintro s B hs rfl rfl hahead
    obtain ⟨used, hused, hrange⟩ := range_eq_of_missing hs hahead (hstart ▸ hread₁ B)
    rw [hrange]
    exact ⟨rfl, index_advance_le hused rfl⟩
  | some start =>
    -- the first two numbers leave some of the statement
    obtain ⟨left, hleft⟩ : ∃ left, (Argument.int A).2 = some left := by
      cases h : (Argument.int A).2 with
      | none => exact absurd ⟨start, hstart, Or.inl h⟩ hkeeps
      | some left => exact ⟨left, rfl⟩
    obtain ⟨left', hleft'⟩ : ∃ left', (Argument.int left).2 = some left' := by
      cases h : (Argument.int left).2 with
      | none => exact absurd ⟨start, hstart, Or.inr ⟨left, hleft, h⟩⟩ hkeeps
      | some left' => exact ⟨left', rfl⟩
    have hbare₁ : left.Bare := hbare.of_subset fun c => Argument.mem_of_mem_left_int hleft
    have hbare₂ : left'.Bare := hbare₁.of_subset fun c => Argument.mem_of_mem_left_int hleft'
    have hread₂ := reads_int_semicolon hreader hbare₁
    have hread₃ := reads_int_semicolon hreader hbare₂
    rw [hstart, hleft] at hread₁
    rw [hleft'] at hread₂
    refine ⟨if (Argument.int left').1.getD 1 = 0 then
        (.error (.fault ⟨.zeroStep, some (index + (A.length - left'.length : Nat)), none⟩), log)
      else (.ok (rangeValue start (Argument.int left).1 ((Argument.int left').1.getD 1)), log), ?_⟩
    rintro s B hs rfl rfl hahead
    obtain ⟨used, hused, hrange⟩ := range_eq hs hahead (hread₁ B) (hread₂ B) (hread₃ B)
    have hplace : (A ++ ';' :: B).length - (Text.resume (';' :: B) (some left')).length =
        A.length - left'.length := by
      simp only [Text.resume, List.length_append, List.length_cons]
      omega
    rw [hrange, hplace]
    split
    . exact ⟨rfl, index_advance_le hused rfl⟩
    . exact ⟨rfl, index_advance_le hused rfl⟩

theorem lookup_plainNames {name : Text} (hname : name ∈ plainNames) :
    (name = "say".toList ∧ registry.lookup name = some ⟨name, say⟩) ∨
      (name = "return".toList ∧ registry.lookup name = some ⟨name, giveBack⟩) ∨
      (name = "sleep".toList ∧ registry.lookup name = some ⟨name, sleep⟩) ∨
      (name = "range".toList ∧ registry.lookup name = some ⟨name, range⟩) := by
  simp only [plainNames, List.mem_cons, List.not_mem_nil, or_false] at hname
  rw [registry_eq]
  obtain rfl | rfl | rfl | rfl := hname
  . exact Or.inl ⟨rfl, rfl⟩
  . exact Or.inr (Or.inl ⟨rfl, rfl⟩)
  . exact Or.inr (Or.inr (Or.inl ⟨rfl, rfl⟩))
  . exact Or.inr (Or.inr (Or.inr ⟨rfl, rfl⟩))

theorem exists_confined {name : Text} (hname : name ∈ plainNames) (hbare : A.Bare)
    (hkeeps : name = "range".toList → ¬ Argument.Overruns A) :
    ∃ command, registry.lookup name = some command ∧
      ∀ evaluator, Verbatim evaluator.unit (· != '$') → Confined (command.body evaluator) A := by
  obtain ⟨-, hlookup⟩ | ⟨-, hlookup⟩ | ⟨-, hlookup⟩ | ⟨hrange, hlookup⟩ := lookup_plainNames hname
  . exact ⟨_, hlookup, fun _ hreader => confined_say hreader hbare⟩
  . exact ⟨_, hlookup, fun _ hreader => confined_giveBack hreader hbare⟩
  . exact ⟨_, hlookup, fun _ hreader => confined_sleep hreader hbare⟩
  . exact ⟨_, hlookup, fun _ hreader => confined_range hreader hbare (hkeeps hrange)⟩

/--
The text `0 0`, which makes a difference to every command that reads it.
-/
def probe : Text := ['0', ' ', '0']

theorem reads_probe (hreader : Verbatim evaluator.unit (· != '$')) :
    Reads (Read.int evaluator.unit {}) probe (some 0) ['0'] ∧
      Reads (Read.int evaluator.unit {}) ['0'] (some 0) [] ∧
      Reads (Read.int evaluator.unit {}) [] none [] := by
  have hread : ∀ {t : Text}, t.Bare → t.dropSpaces ≠ ['-'] →
      Reads (Read.int evaluator.unit {}) (t ++ []) (Argument.int t).1
        (Text.resume [] (Argument.int t).2) :=
    fun hbare hend => reads_argument_int hreader hbare .nil (Or.inl hend)
  exact ⟨hread (t := probe) (by decide) (by decide), hread (t := ['0']) (by decide) (by decide),
    hread (t := []) (by decide) (by decide)⟩

theorem outcome_probe_ne {name : Text} {command : Command} (hname : name ∈ plainNames)
    (hlookup : registry.lookup name = some command) (hreader : Verbatim evaluator.unit (· != '$'))
    {s s' : State} (hs : s.cursor.InText) (hs' : s'.cursor.InText) (hahead : s.cursor.ahead = probe)
    (hahead' : s'.cursor.ahead = []) :
    outcome (command.body evaluator s) ≠ outcome (command.body evaluator s') := by
  obtain ⟨hint, hint', hnone⟩ := reads_probe hreader
  obtain ⟨-, hcommand⟩ | ⟨-, hcommand⟩ | ⟨-, hcommand⟩ | ⟨-, hcommand⟩ := lookup_plainNames hname
  all_goals
    cases hlookup.symm.trans hcommand
    intro heq
    dsimp only at heq
  -- a message, a text, a duration and a start that only the probe has
  . obtain ⟨_, -, hsay⟩ := say_eq (t := probe ++ []) hs hahead
      (reads_argument_line hreader (by decide) .nil)
    obtain ⟨_, -, hsay'⟩ := say_eq (t := [] ++ []) hs' hahead'
      (reads_argument_line hreader (by decide) .nil)
    simp only [hsay, hsay', outcome, Prod.mk.injEq, State.push_log, true_and] at heq
    have hback := congrArg Array.back? heq
    simp only [Array.back?_push] at hback
    cases hback
  . obtain ⟨_, -, hgive⟩ := giveBack_eq (t := probe ++ []) hs hahead
      (reads_argument_string hreader (by decide) .nil)
    obtain ⟨_, -, hgive'⟩ := giveBack_eq (t := [] ++ []) hs' hahead'
      (reads_argument_string hreader (by decide) .nil)
    rw [hgive, hgive'] at heq
    cases heq
  . obtain ⟨_, -, hsleep⟩ := sleep_eq hs hahead hint
    obtain ⟨_, -, hsleep'⟩ := sleep_eq hs' hahead' hnone
    rw [hsleep, hsleep'] at heq
    cases heq
  . obtain ⟨_, -, hrange⟩ := range_eq hs hahead hint hint' hnone
    obtain ⟨_, -, hrange'⟩ := range_eq_of_missing hs' hahead' hnone
    rw [hrange, hrange'] at heq
    cases heq

theorem outcome_range_ne (hreader : Verbatim evaluator.unit (· != '$')) (hbare : A.Bare)
    (hover : Argument.Overruns A) {s s' : State} (hs : s.cursor.InText) (hs' : s'.cursor.InText)
    (hahead : s.cursor.ahead = A ++ ';' :: probe) (hahead' : s'.cursor.ahead = A ++ [';']) :
    outcome (range evaluator s) ≠ outcome (range evaluator s') := by
  obtain ⟨hint, hint', hnone⟩ := reads_probe hreader
  have hread₁ := reads_int_semicolon hreader hbare
  intro heq
  obtain ⟨start, hstart, hleft | ⟨left, hleft, hleft'⟩⟩ := (Argument.overruns_iff A).mp hover
  . rw [hstart, hleft] at hread₁
    -- the first number takes the semicolon, so the next one is the first zero of the probe
    obtain ⟨_, -, hrange⟩ := range_eq hs hahead (hread₁ probe) hint hint'
    obtain ⟨_, -, hrange'⟩ := range_eq hs' hahead' (hread₁ []) hnone hnone
    rw [hrange, hrange'] at heq
    cases heq
  . have hread₂ := reads_int_semicolon hreader
      (hbare.of_subset fun c => Argument.mem_of_mem_left_int hleft)
    rw [hstart, hleft] at hread₁
    rw [hleft'] at hread₂
    obtain ⟨_, -, hrange⟩ := range_eq hs hahead (hread₁ probe) (hread₂ probe) hint
    obtain ⟨_, -, hrange'⟩ := range_eq hs' hahead' (hread₁ []) (hread₂ []) hnone
    rw [hrange, hrange'] at heq
    cases heq

variable (level : Nat) (scope : Table Value) (log : Log) (tracing : Bool)

/--
The run of the first command of a text.
-/
def runFirst (buffer : Text) : EStateM.Result Stop State Value :=
  (Evaluator.ofLevel registry (level + 1)).command { cursor := { buffer, scope }, log, tracing }

theorem runFirst_of_space {name : Text} {command : Command} (hname : name ∈ plainNames)
    (hlookup : registry.lookup name = some command) (hbare : A.Bare) (B : Text) :
    ∃ s : State, runFirst level scope log tracing (name ++ ' ' :: A ++ ';' :: B) =
        command.body (.bodies registry level) s ∧ s.cursor.InText ∧
      s.cursor.index = ((name ++ ' ' :: A).length - A.dropSpaces.length : Nat) ∧
      s.log = (State.note { cursor := { buffer := [] }, log, tracing } (callLine name 0)).log ∧
      s.cursor.ahead = A.dropSpaces ++ ';' :: B := by
  have hs : (Cursor.mk (name ++ ' ' :: A ++ ';' :: B) 0 scope).InText :=
    spawn_inText { buffer := [], scope } _
  obtain ⟨used, hused, hcommand⟩ :=
    command_eq_of_space (s := ⟨_, log, tracing⟩) level hname hlookup hs rfl hbare (.semicolon B)
  obtain ⟨hs', hahead⟩ := advance_of_eq_append (s := ⟨_, log, tracing⟩) hs hused
  refine ⟨_, hcommand, ?_, ?_, ?_, ?_⟩
  . rw [State.note_cursor]
    exact hs'
  . have hlength := congrArg List.length hused
    simp only [List.length_append, List.length_cons] at hlength ⊢
    rw [State.note_cursor]
    simp only [State.advance_cursor, advance_index]
    omega
  . unfold State.note
    cases tracing <;> rfl
  . rw [State.note_cursor]
    exact hahead

theorem runFirst_of_semicolon {name : Text} {command : Command} (hname : name ∈ plainNames)
    (hlookup : registry.lookup name = some command) (B : Text) :
    ∃ s : State, runFirst level scope log tracing (name ++ ';' :: B) =
        command.body (.bodies registry level) s ∧ s.cursor.InText ∧
      s.cursor.ahead = B.dropSpaces := by
  have hs : (Cursor.mk (name ++ ';' :: B) 0 scope).InText := spawn_inText { buffer := [], scope } _
  obtain ⟨hne, hquote, hchars, hbarename⟩ := plainNames_spec hname
  obtain ⟨hstring, -⟩ := Argument.string_word hne hquote hchars
  have hstart := dropSpaces_plainNames hname []
  rw [List.append_nil] at hstart
  obtain ⟨used, hused, hcommand⟩ := Evaluator.command_eq (s := ⟨_, log, tracing⟩) hs rfl
    hbarename (.semicolon B) hstart hstring hne hlookup
  obtain ⟨hs', hahead⟩ := advance_of_eq_append (s := ⟨_, log, tracing⟩) hs hused
  refine ⟨_, hcommand, ?_, ?_⟩
  . rw [State.note_cursor]
    exact hs'
  . rw [State.note_cursor]
    exact hahead

theorem runFirst_semicolon_ne {name : Text} (hname : name ∈ plainNames) :
    outcome (runFirst level scope log tracing (name ++ ';' :: probe)) ≠
      outcome (runFirst level scope log tracing (name ++ [';'])) := by
  obtain ⟨command, hlookup⟩ : ∃ command, registry.lookup name = some command := by
    obtain ⟨-, h⟩ | ⟨-, h⟩ | ⟨-, h⟩ | ⟨-, h⟩ := lookup_plainNames hname
    all_goals exact ⟨_, h⟩
  obtain ⟨s, hrun, hs, hahead⟩ :=
    runFirst_of_semicolon level scope log tracing hname hlookup probe
  obtain ⟨s', hrun', hs', hahead'⟩ :=
    runFirst_of_semicolon level scope log tracing hname hlookup []
  rw [hrun, hrun']
  exact outcome_probe_ne hname hlookup (Evaluator.verbatim_bodies registry level) hs hs' hahead hahead'

theorem runFirst_range_ne (hbare : A.Bare) (hover : Argument.Overruns A) :
    outcome (runFirst level scope log tracing ("range".toList ++ ' ' :: A ++ ';' :: probe)) ≠
      outcome (runFirst level scope log tracing ("range".toList ++ ' ' :: A ++ [';'])) := by
  have hname : "range".toList ∈ plainNames := by decide
  have hlookup : registry.lookup "range".toList = some ⟨"range".toList, range⟩ := by
    rw [registry_eq]
    rfl
  have hbare' : Text.Bare A.dropSpaces := hbare.dropSpaces
  obtain ⟨s, hrun, hs, -, -, hahead⟩ :=
    runFirst_of_space level scope log tracing hname hlookup hbare probe
  obtain ⟨s', hrun', hs', -, -, hahead'⟩ :=
    runFirst_of_space level scope log tracing hname hlookup hbare []
  rw [hrun, hrun']
  exact outcome_range_ne (Evaluator.verbatim_bodies registry level) hbare'
    ((Argument.overruns_dropSpaces A).mpr hover) hs hs' hahead hahead'

theorem runFirst_confined {name : Text} (hname : name ∈ plainNames) (hbare : A.Bare)
    (hkeeps : name = "range".toList → ¬ Argument.Overruns A) :
    ∃ o, ∀ B, outcome (runFirst level scope log tracing (name ++ ' ' :: A ++ ';' :: B)) = o ∧
      place (runFirst level scope log tracing (name ++ ' ' :: A ++ ';' :: B)) ≤
        (name ++ ' ' :: A).length + 1 + (B.takeWhile (· == ' ')).length := by
  have hbare' : Text.Bare A.dropSpaces := hbare.dropSpaces
  obtain ⟨command, hlookup, hconfined⟩ := exists_confined hname hbare'
    (fun hrange hover => hkeeps hrange ((Argument.overruns_dropSpaces A).mp hover))
  obtain ⟨o, ho⟩ := hconfined _ (Evaluator.verbatim_bodies registry level)
    ((name ++ ' ' :: A).length - A.dropSpaces.length : Nat)
    (State.note { cursor := { buffer := [] }, log, tracing } (callLine name 0)).log
  refine ⟨o, fun B => ?_⟩
  obtain ⟨s, hrun, hs, hindex, hlog, hahead⟩ :=
    runFirst_of_space level scope log tracing hname hlookup hbare B
  obtain ⟨houtcome, hplace⟩ := ho s B hs hindex hlog hahead
  have hlength : A.dropSpaces.length ≤ (name ++ ' ' :: A).length := by
    have := (List.dropWhile_sublist (l := A) (· == ' ')).length_le
    simp only [List.length_append, List.length_cons, Text.dropSpaces]
    omega
  rw [hrun]
  exact ⟨houtcome, by omega⟩

/--
A statement keeps to itself, whatever follows it, if and only if its name does not come right before
the semicolon and it is not a range whose first two numbers go up to the semicolon.
-/
theorem keeps_to_statement_iff {name : Text} (hname : name ∈ plainNames) (hbare : A.Bare)
    (hspace : A = [] ∨ ∃ A', A = ' ' :: A') :
    (∀ B, outcome (runFirst level scope log tracing (name ++ A ++ ';' :: B)) =
        outcome (runFirst level scope log tracing (name ++ A ++ [';'])) ∧
      place (runFirst level scope log tracing (name ++ A ++ ';' :: B)) ≤
        (name ++ A).length + 1 + (B.takeWhile (· == ' ')).length) ↔
      A ≠ [] ∧ (name = "range".toList → ¬ Argument.Overruns A) := by
  obtain rfl | ⟨A, rfl⟩ := hspace
  . -- the name takes the semicolon, and the arguments are those of the next statement
    have hdiffers := runFirst_semicolon_ne level scope log tracing hname
    simp only [List.append_nil, ne_eq, not_true_eq_false, false_and, iff_false]
    exact fun h => hdiffers (h probe).1
  . have hbare' : Text.Bare A := hbare.of_subset fun c => List.mem_cons_of_mem ' '
    have hover : Argument.Overruns (' ' :: A) ↔ Argument.Overruns A := by
      rw [← Argument.overruns_dropSpaces, Text.dropSpaces_space, Argument.overruns_dropSpaces]
    rw [hover]
    constructor
    . intro h
      refine ⟨by simp, ?_⟩
      rintro rfl hoverruns
      exact runFirst_range_ne level scope log tracing hbare' hoverruns (h probe).1
    . rintro ⟨-, hkeeps⟩ B
      obtain ⟨o, ho⟩ := runFirst_confined level scope log tracing hname hbare' hkeeps
      exact ⟨(ho B).1.trans (ho []).1.symm, (ho B).2⟩

theorem keeps_to_statement_range :
    "range".toList ∈ plainNames ∧ ∀ B,
      outcome (runFirst 0 .empty #[] false ("range".toList ++ " 1 2 3".toList ++ ';' :: B)) =
        outcome (runFirst 0 .empty #[] false ("range".toList ++ " 1 2 3".toList ++ [';'])) ∧
      place (runFirst 0 .empty #[] false ("range".toList ++ " 1 2 3".toList ++ ';' :: B)) ≤
        ("range".toList ++ " 1 2 3".toList).length + 1 + (B.takeWhile (· == ' ')).length := by
  refine ⟨by decide, ?_⟩
  apply (keeps_to_statement_iff 0 .empty #[] false (by decide) (by decide)
    (Or.inr ⟨"1 2 3".toList, rfl⟩)).mpr
  refine ⟨by decide, fun _ hover => ?_⟩
  obtain ⟨v, -, hleft | ⟨left, hleft, hleft'⟩⟩ := (Argument.overruns_iff _).mp hover
  . revert hleft
    decide
  . obtain rfl : "2 3".toList = left := Option.some.inj hleft
    revert hleft'
    decide

theorem say_and_range_take_next_statement :
    outcome (runFirst 0 .empty #[] false "say;hello".toList) ≠
        outcome (runFirst 0 .empty #[] false "say;".toList) ∧
      outcome (runFirst 0 .empty #[] false "range 1 2;0 0".toList) ≠
        outcome (runFirst 0 .empty #[] false "range 1 2;".toList) := by
  constructor
  . intro h
    have hlog := congrArg (·.2) h
    revert hlog
    decide +kernel
  . intro h
    have hok := congrArg (·.1.toBool) h
    revert hok
    decide +kernel

end Standard

end LineScript
