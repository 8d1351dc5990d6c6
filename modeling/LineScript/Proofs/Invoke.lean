import LineScript.Proofs.Arguments
import LineScript.Proofs.Standard

/-!
This module contains runs of single commands on statements of literal text: how a command is found by
its name, and what the standard commands without a body do with their arguments.
-/

namespace LineScript

open Eval Cursor Read

/--
The events apart from the lines for the one who watches.
-/
def Log.live (log : Log) : List Event := log.toList.filter (·.trace?.isNone)

theorem Log.live_append (log log' : Log) : live (log ++ log') = live log ++ live log' := by
  simp [live]

def State.push (s : State) (event : Event) : State := { s with log := s.log.push event }

/--
The state after a line was written for the one who watches, if there is one.
-/
def State.note (s : State) (line : Text) : State := if s.tracing then s.push (.trace line) else s

namespace State

@[simp]
theorem push_cursor (s : State) (event : Event) : (s.push event).cursor = s.cursor := rfl

@[simp]
theorem push_log (s : State) (event : Event) : (s.push event).log = s.log.push event := rfl

@[simp]
theorem note_cursor (s : State) (line : Text) : (s.note line).cursor = s.cursor := by
  unfold note
  split <;> rfl

theorem exists_note_eq (s : State) (line : Text) :
    ∃ notes : Log, notes.live = [] ∧ s.note line = { s with log := s.log ++ notes } := by
  unfold note
  split
  . exact ⟨#[.trace line], rfl, by simp [push]⟩
  . exact ⟨#[], rfl, by simp⟩

end State

def callLine (name : Text) (index : Int) : Text :=
  Text.join [' '] ["[DBG]".toList, "CALL".toList, name, "at".toList, Numeral.ofInt index] ++ ['\n']

variable {s : State} {A tail : Text}

theorem trace_eq_note (words : List Text) (s : State) :
    trace (words.map some) s =
      .ok () (s.note (Text.join [' '] ("[DBG]".toList :: words) ++ ['\n'])) := by
  have hget : (get : Eval State) s = .ok s s := rfl
  have hwritten : ((words.map some).takeWhile (·.isSome)).filterMap id = words := by
    induction words with
    | nil => rfl
    | cons word words ih => simpa using ih
  unfold trace State.note
  rw [bind_of_ok hget, hwritten]
  cases s.tracing with
  | false => rfl
  | true =>
    simp only [List.length_map, ↓reduceIte]
    rfl

theorem trace_call_eq (name : Text) {index : Int} (h : index.natAbs ≤ s.cursor.buffer.length) :
    trace [some "CALL".toList, some name, some "at".toList, s.cursor.numeral? index] s =
      .ok () (s.note (callLine name index)) := by
  have hnumeral : s.cursor.numeral? index = some (Numeral.ofInt index) := if_pos h
  rw [hnumeral]
  exact trace_eq_note ["CALL".toList, name, "at".toList, Numeral.ofInt index] s

theorem findCommand_of_reads {registry : Registry Command} {command : Command}
    {reader : Eval Value} {t rest name : Text} (hs : s.cursor.InText) (hahead : s.cursor.ahead = t)
    (hstart : t.dropSpaces = t) (hread : Reads (Read.string reader {}) t name rest) (hne : name ≠ [])
    (hlookup : registry.lookup name = some command) :
    ∃ used, t = used ++ rest ∧ findCommand registry reader s =
      .ok (some command) ((s.advance used.length).note (callLine name s.cursor.index)) := by
  have hspaces := reads_spaces t
  rw [hstart] at hspaces
  obtain ⟨used, hused, hx, -⟩ := hread.exists_used hs hahead
  obtain ⟨none', hnone, hx', -⟩ := hspaces.exists_used hs hahead
  obtain rfl : none' = [] := by simpa using hnone
  have hbound : s.cursor.index.natAbs ≤ (s.advance used.length).cursor.buffer.length := by
    have h0 := hs.nonneg
    have h1 := hs.le_length
    simp only [State.advance_cursor, advance_buffer]
    omega
  refine ⟨used, hused, ?_⟩
  unfold findCommand
  rw [bind_of_ok hx', List.length_nil, Int.natCast_zero, State.advance_zero, index_bind, bind_of_ok hx]
  simp only [List.isEmpty_iff, hne, hlookup, ↓reduceIte]
  rw [cursor_bind, bind_of_ok (trace_call_eq _ hbound)]
  rfl

theorem findCommand_eq {registry : Registry Command} {command : Command} {reader : Eval Value}
    (hreader : Verbatim reader (· != '$')) (hs : s.cursor.InText)
    (hahead : s.cursor.ahead = A ++ tail) (hbare : A.Bare) (htail : tail.Closes)
    (hstart : A.dropSpaces = A) {name : Text} {left : Option Text}
    (hstring : Argument.string A = (name, left)) (hne : name ≠ [])
    (hlookup : registry.lookup name = some command) :
    ∃ used, A ++ tail = used ++ Text.resume tail left ∧
      findCommand registry reader s =
        .ok (some command) ((s.advance used.length).note (callLine name s.cursor.index)) := by
  have hread := reads_argument_string hreader hbare htail
  rw [hstring] at hread
  apply findCommand_of_reads hs hahead _ hread hne hlookup
  rw [htail.dropSpaces_append, hstart]

theorem findCommand_none (registry : Registry Command) {reader : Eval Value}
    (hreader : Verbatim reader (· != '$')) (hs : s.cursor.InText) (hahead : s.cursor.ahead = tail)
    (htail : tail.Closes) :
    ∃ used, tail = used ++ Text.resume tail none ∧
      findCommand registry reader s = .ok none (s.advance used.length) := by
  have hspaces : Reads spaces tail () tail := by
    have h := reads_spaces tail
    rw [htail.dropSpaces_eq] at h
    exact h
  have hstring : Reads (Read.string reader {}) tail [] (Text.resume tail none) :=
    reads_argument_string (A := []) hreader nofun htail
  obtain ⟨none', hnone, hx', -⟩ := hspaces.exists_used hs hahead
  obtain rfl : none' = [] := by simpa using hnone
  obtain ⟨used, hused, hx, -⟩ := hstring.exists_used hs hahead
  refine ⟨used, hused, ?_⟩
  unfold findCommand
  rw [bind_of_ok hx', List.length_nil, Int.natCast_zero, State.advance_zero,
    index_bind, bind_of_ok hx]
  rfl

namespace Evaluator

variable {registry : Registry Command} {level : Nat} {s' : State}

theorem verbatim_bodies (registry : Registry Command) (level : Nat) :
    Verbatim (bodies registry level).unit (· != '$') :=
  verbatim_unit (ofLevel registry level)

theorem command_eq {command : Command} (hs : s.cursor.InText) (hahead : s.cursor.ahead = A ++ tail)
    (hbare : A.Bare) (htail : tail.Closes) (hstart : A.dropSpaces = A) {name : Text}
    {left : Option Text} (hstring : Argument.string A = (name, left)) (hne : name ≠ [])
    (hlookup : registry.lookup name = some command) :
    ∃ used, A ++ tail = used ++ Text.resume tail left ∧
      (ofLevel registry (level + 1)).command s =
        command.body (bodies registry level)
          ((s.advance used.length).note (callLine name s.cursor.index)) := by
  obtain ⟨used, hused, hfind⟩ := findCommand_eq (verbatim_unit (ofLevel registry level)) hs hahead
    hbare htail hstart hstring hne hlookup
  exact ⟨used, hused, bind_of_ok hfind⟩

theorem command_of_word (level : Nat) {command : Command} {w rest : Text} (hs : s.cursor.InText)
    (hahead : s.cursor.ahead = w ++ ' ' :: rest) (hw : w.IsWord)
    (hlookup : registry.lookup w = some command) :
    ∃ used, w ++ ' ' :: rest = used ++ rest.dropSpaces ∧
      (ofLevel registry (level + 1)).command s =
        command.body (bodies registry level)
          ((s.advance used.length).note (callLine w s.cursor.index)) := by
  obtain ⟨used, hused, hfind⟩ := findCommand_of_reads hs hahead (hw.dropSpaces_append _)
    (reads_word (verbatim_unit (ofLevel registry level)) hw rest) hw.1 hlookup
  exact ⟨used, hused, bind_of_ok hfind⟩

theorem commands_of_command {v : Value} (h : (ofLevel registry (level + 1)).command s = .ok v s')
    (hv : v.isFinish = false) :
    (ofLevel registry (level + 1)).commands s = (ofLevel registry level).commands s' := by
  refine (bind_of_ok h).trans ?_
  rw [hv]
  rfl

theorem commands_of_closes {v : Value} (h : (ofLevel registry (level + 2)).command s = .ok v s')
    (hv : v.isFinish = false) (hs' : s'.cursor.InText) (htail : s'.cursor.ahead.Closes) :
    ∃ used : Text,
      (ofLevel registry (level + 2)).commands s = .ok () (s'.advance used.length) := by
  obtain ⟨used, -, hfind⟩ :=
    findCommand_none registry (verbatim_unit (ofLevel registry level)) hs' rfl htail
  have hcommand : (ofLevel registry (level + 1)).command s' = .ok .finish (s'.advance used.length) :=
    bind_of_ok hfind
  exact ⟨used, (commands_of_command h hv).trans (bind_of_ok hcommand)⟩

end Evaluator

namespace Standard

variable {evaluator : Evaluator} {t : Text}

/--
The names of the commands that run no other commands.
-/
def plainNames : List Text := ["say".toList, "return".toList, "sleep".toList, "range".toList]

theorem plainNames_spec {name : Text} (hname : name ∈ plainNames) :
    name ≠ [] ∧ name.head? ≠ some '"' ∧ (∀ c ∈ name, c ≠ ' ') ∧ name.Bare := by
  simp only [plainNames, List.mem_cons, List.not_mem_nil, or_false] at hname
  have hspace : name.all (· != ' ') = true := by
    obtain rfl | rfl | rfl | rfl := hname <;> rfl
  refine ⟨?_, ?_, ?_, ?_⟩
  . obtain rfl | rfl | rfl | rfl := hname <;> decide
  . obtain rfl | rfl | rfl | rfl := hname <;> decide
  . intro c hc
    simpa using List.all_eq_true.mp hspace c hc
  . obtain rfl | rfl | rfl | rfl := hname <;> decide

theorem dropSpaces_plainNames {name : Text} (hname : name ∈ plainNames) (t : Text) :
    Text.dropSpaces (name ++ t) = name ++ t := by
  simp only [plainNames, List.mem_cons, List.not_mem_nil, or_false] at hname
  obtain rfl | rfl | rfl | rfl := hname <;> rfl

theorem command_eq_of_space (level : Nat) {name : Text} {command : Command} (hname : name ∈ plainNames)
    (hlookup : registry.lookup name = some command) (hs : s.cursor.InText)
    (hahead : s.cursor.ahead = name ++ ' ' :: A ++ tail) (hbare : A.Bare) (htail : tail.Closes) :
    ∃ used, name ++ ' ' :: A ++ tail = used ++ (A.dropSpaces ++ tail) ∧
      (Evaluator.ofLevel registry (level + 1)).command s =
        command.body (.bodies registry level)
          ((s.advance used.length).note (callLine name s.cursor.index)) := by
  obtain ⟨hne, hquote, hchars, hbarename⟩ := plainNames_spec hname
  obtain ⟨-, hspace⟩ := Argument.string_word hne hquote hchars
  have hbare' : Text.Bare (name ++ ' ' :: A) := by
    intro c hc
    cases List.mem_append.mp hc with
    | inl hmem => exact hbarename c hmem
    | inr hmem =>
      cases List.mem_cons.mp hmem with
      | inl heq => simp [heq]
      | inr hmem => exact hbare c hmem
  exact Evaluator.command_eq hs hahead hbare' htail (dropSpaces_plainNames hname _) (hspace A) hne
    hlookup

theorem say_eq {message rest : Text} (hs : s.cursor.InText) (hahead : s.cursor.ahead = t)
    (h : Reads (Read.string evaluator.unit { stop := some .never }) t message rest) :
    ∃ used, t = used ++ rest ∧
      say evaluator s = .ok .null ((s.advance used.length).push (.effect ⟨.stdout, message⟩)) := by
  obtain ⟨used, hused, hx, -⟩ := h.exists_used hs hahead
  refine ⟨used, hused, ?_⟩
  unfold say
  rw [bind_of_ok hx]
  rfl

theorem giveBack_eq {text rest : Text} (hs : s.cursor.InText) (hahead : s.cursor.ahead = t)
    (h : Reads (Read.string evaluator.unit {}) t text rest) :
    ∃ used, t = used ++ rest ∧ giveBack evaluator s = .ok (.text text) (s.advance used.length) := by
  obtain ⟨used, hused, hx, -⟩ := h.exists_used hs hahead
  refine ⟨used, hused, ?_⟩
  unfold giveBack
  rw [bind_of_ok hx]
  rfl

/--
What comes of a wait that was started in `s` and has read its duration in `s'`.
-/
def sleepResult (s s' : State) : Option Int → EStateM.Result Stop State Value
  | none => .error (.fault ⟨.missingDuration, some s.cursor.index, some s.cursor.buffer⟩) s'
  | some duration =>
    match Binary64.ofRatio duration.toNat 1000 with
    | none => .error (.failure .overflow) s'
    | some seconds => .ok .null (s'.push (.pause seconds))

theorem sleep_eq {duration : Option Int} {rest : Text} (hs : s.cursor.InText)
    (hahead : s.cursor.ahead = t) (h : Reads (Read.int evaluator.unit {}) t duration rest) :
    ∃ used, t = used ++ rest ∧
      sleep evaluator s = sleepResult s (s.advance used.length) duration := by
  obtain ⟨used, hused, hx, -⟩ := h.exists_used hs hahead
  refine ⟨used, hused, ?_⟩
  unfold sleep sleepResult
  rw [index_bind, bind_of_ok hx]
  cases duration with
  | none => rfl
  | some duration =>
    dsimp only
    cases Binary64.ofRatio duration.toNat 1000 <;> rfl

theorem range_eq_of_missing {rest : Text} (hs : s.cursor.InText) (hahead : s.cursor.ahead = t)
    (h : Reads (Read.int evaluator.unit {}) t none rest) :
    ∃ used, t = used ++ rest ∧ range evaluator s =
      .error (.fault ⟨.missingStart, some s.cursor.index, some s.cursor.buffer⟩)
        (s.advance used.length) := by
  obtain ⟨used, hused, hx, -⟩ := h.exists_used hs hahead
  refine ⟨used, hused, ?_⟩
  unfold range
  rw [index_bind, bind_of_ok hx]
  rfl

def rangeValue (start : Int) (stop : Option Int) (step : Int) : Value :=
  match stop with
  | some stop => .range start stop step
  | none => .range 0 start step

theorem range_eq {start : Int} {stop step : Option Int} {t₁ t₂ t₃ : Text} (hs : s.cursor.InText)
    (hahead : s.cursor.ahead = t) (h₁ : Reads (Read.int evaluator.unit {}) t (some start) t₁)
    (h₂ : Reads (Read.int evaluator.unit {}) t₁ stop t₂)
    (h₃ : Reads (Read.int evaluator.unit {}) t₂ step t₃) :
    ∃ used : Text, t = used ++ t₃ ∧ range evaluator s =
      if step.getD 1 = 0 then
        .error (.fault ⟨.zeroStep, some (s.cursor.index + (t.length - t₂.length : Nat)),
          some s.cursor.buffer⟩) (s.advance used.length)
      else .ok (rangeValue start stop (step.getD 1)) (s.advance used.length) := by
  obtain ⟨used₁, hused₁, hx₁, hs₁, ha₁⟩ := h₁.exists_used hs hahead
  obtain ⟨used₂, hused₂, hx₂, hs₂, ha₂⟩ := h₂.exists_used hs₁ ha₁
  obtain ⟨used₃, hused₃, hx₃, -⟩ := h₃.exists_used hs₂ ha₂
  refine ⟨used₁ ++ used₂ ++ used₃, by simp [hused₁, hused₂, hused₃], ?_⟩
  have hlength : (t.length - t₂.length : Nat) = used₁.length + used₂.length := by
    simp only [hused₁, hused₂, List.length_append]
    omega
  unfold range
  rw [index_bind, bind_of_ok hx₁]
  dsimp only
  rw [bind_of_ok hx₂, index_bind, bind_of_ok hx₃, hlength]
  simp only [State.advance_advance, List.length_append, Int.natCast_add]
  split
  . simp only [State.advance_cursor, advance_index]
    rfl
  . cases stop <;> rfl

end Standard

end LineScript
