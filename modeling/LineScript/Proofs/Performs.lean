import LineScript.Proofs.Statements
import LineScript.Proofs.Units

/-!
This module contains computations that read and act: they take text off the text ahead and leave
events in the log. What a computation performs follows from what its parts perform, one after the
other. At the end is the rule for loops.
-/

namespace LineScript

open Eval Cursor Read

variable {α β : Type} {scope : Table Value} {t rest rest' : Text} {a : α} {b : β}
  {events events' : List Event}

/--
The state with another log.
-/
def State.logged (s : State) (log : Log) : State := { s with log }

/--
With the variables in `scope` and the text `t` ahead, the computation gives `a`, leaves `rest` ahead
and adds `events` to the log. It changes nothing else.
-/
def Eval.Performs (scope : Table Value) (x : Eval α) (t : Text) (a : α) (rest : Text)
    (events : List Event) : Prop :=
  ∀ s : State, s.cursor.InText → s.cursor.scope = scope → s.cursor.ahead = t →
    ∃ (used : Text) (log : Log), t = used ++ rest ∧
      x s = .ok a ((s.advance used.length).logged log) ∧ s.log.Adds events log

namespace State

theorem advance_logged (s : State) (log : Log) (n : Int) :
    (s.logged log).advance n = (s.advance n).logged log := rfl

theorem logged_logged (s : State) (log log' : Log) : (s.logged log).logged log' = s.logged log' := rfl

theorem exists_note_eq_logged (s : State) (line : Text) :
    ∃ log, s.log.Adds [] log ∧ s.note line = s.logged log := by
  refine ⟨(s.note line).log, Log.adds_note s line, ?_⟩
  unfold note
  split <;> rfl

end State

namespace Eval

theorem ReadsIn.performs {x : Eval α} (h : ReadsIn scope x t a rest) :
    Performs scope x t a rest [] := by
  intro s hs hscope hahead
  obtain ⟨used, ht, hx, -⟩ := h.exists_used hs hscope hahead
  exact ⟨used, s.log, ht, hx, Log.adds_nil s.log⟩

theorem Reads.performs {x : Eval α} (h : Reads x t a rest) : Performs scope x t a rest [] :=
  (h.readsIn scope).performs

theorem performs_pure (a : α) : Performs scope (pure a) t a t [] := (reads_pure a t).performs

theorem Performs.bind {x : Eval α} {f : α → Eval β} (hx : Performs scope x t a rest events)
    (hf : Performs scope (f a) rest b rest' events') :
    Performs scope (x >>= f) t b rest' (events ++ events') := by
  intro s hs hscope hahead
  obtain ⟨used, log, ht, hok, hadds⟩ := hx s hs hscope hahead
  obtain ⟨hs', hahead'⟩ := advance_of_eq_append hs (hahead.trans ht)
  obtain ⟨used', log', hrest, hok', hadds'⟩ :=
    hf ((s.advance used.length).logged log) hs' hscope hahead'
  refine ⟨used ++ used', log', by rw [ht, hrest, List.append_assoc], ?_, hadds.trans hadds'⟩
  rw [bind_of_ok hok, hok', List.length_append, Int.natCast_add, State.advance_logged,
    State.logged_logged, State.advance_advance]

theorem Performs.bind_left {x : Eval α} {f : α → Eval β} (hx : Performs scope x t a rest events)
    (hf : Performs scope (f a) rest b rest' []) : Performs scope (x >>= f) t b rest' events := by
  rw [← List.append_nil events]
  exact hx.bind hf

theorem Performs.bind_right {x : Eval α} {f : α → Eval β} (hx : Performs scope x t a rest [])
    (hf : Performs scope (f a) rest b rest' events) :
    Performs scope (x >>= f) t b rest' events :=
  hx.bind hf

theorem Performs.bind_of_reads {x : Eval α} {f : α → Eval β} (hx : Reads x t a rest)
    (hf : Performs scope (f a) rest b rest' events) :
    Performs scope (x >>= f) t b rest' events :=
  hx.performs.bind_right hf

theorem performs_index_bind {f : Int → Eval β} (h : ∀ i, Performs scope (f i) t b rest events) :
    Performs scope (index >>= f) t b rest events := by
  intro s hs hscope hahead
  rw [index_bind]
  exact h s.cursor.index s hs hscope hahead

theorem performs_emit (topic : Topic) (message : Text) :
    Performs scope (emit topic message) t () t [.effect ⟨topic, message⟩] := by
  intro s hs hscope hahead
  refine ⟨[], s.log.push (.effect ⟨topic, message⟩), rfl, ?_, Log.adds_push s.log rfl⟩
  rw [List.length_nil, Int.natCast_zero, State.advance_zero]
  rfl

theorem performs_trace (words : List Text) : Performs scope (trace (words.map some)) t () t [] := by
  intro s hs hscope hahead
  obtain ⟨log, hadds, hnote⟩ :=
    s.exists_note_eq_logged (Text.join [' '] ("[DBG]".toList :: words) ++ ['\n'])
  refine ⟨[], log, rfl, ?_, hadds⟩
  rw [trace_eq_note, hnote, List.length_nil, Int.natCast_zero, State.advance_zero]

end Eval

namespace Evaluator

variable {registry : Registry Command} {level : Nat} {v : Value}

theorem performs_command {command : Command} {w : Text} (hw : w.IsWord)
    (hlookup : registry.lookup w = some command) (ht : t.dropSpaces = t)
    (hbody : Performs scope (command.body (bodies registry level)) t v rest events) :
    Performs scope (ofLevel registry (level + 1)).command (w ++ ' ' :: t) v rest events := by
  intro s hs hscope hahead
  obtain ⟨used, hused, hcommand⟩ := command_of_word level hs hahead hw hlookup
  rw [ht] at hused
  obtain ⟨hs₁, hahead₁⟩ := advance_of_eq_append hs (hahead.trans hused)
  obtain ⟨log, hadds, hnote⟩ :=
    (s.advance used.length).exists_note_eq_logged (callLine w s.cursor.index)
  obtain ⟨used', log', hrest, hok, hadds'⟩ :=
    hbody ((s.advance used.length).logged log) hs₁ hscope hahead₁
  refine ⟨used ++ used', log', by rw [hused, hrest, List.append_assoc], ?_, hadds.trans hadds'⟩
  rw [hcommand, hnote, hok, List.length_append, Int.natCast_add, State.advance_logged,
    State.logged_logged, State.advance_advance]

theorem performs_commands_end :
    Performs scope (ofLevel registry (level + 1)).commands [] () [] [] := by
  intro s hs hscope hahead
  obtain ⟨used, hused, hfind⟩ :=
    findCommand_none registry (verbatim_unit (ofLevel registry level)) hs hahead .nil
  obtain rfl : used = [] := (List.append_eq_nil_iff.mp hused.symm).1
  have hcommand : (ofLevel registry (level + 1)).command s = .ok .finish _ := bind_of_ok hfind
  exact ⟨[], s.log, rfl, bind_of_ok hcommand, Log.adds_nil s.log⟩

theorem performs_commands_cons (hv : v.isFinish = false)
    (h : Performs scope (ofLevel registry (level + 1)).command t v rest events)
    (hrest : Performs scope (ofLevel registry level).commands rest () rest' events') :
    Performs scope (ofLevel registry (level + 1)).commands t () rest' (events ++ events') := by
  apply h.bind (f := fun v => unless v.isFinish do (ofLevel registry level).commands)
  rw [hv]
  exact hrest

theorem performs_commands_of_last (hv : v.isFinish = false)
    (h : Performs scope (ofLevel registry (level + 2)).command t v [] events) :
    Performs scope (ofLevel registry (level + 2)).commands t () [] events := by
  rw [← List.append_nil events]
  exact performs_commands_cons hv h performs_commands_end

end Evaluator

section Loop

variable {commands : Eval Unit} {name : Text} {element : Value} {elements : Elements}
  {offset : Int}

theorem performs_runElement {shown : Text} (hshown : element.literal? = some shown)
    (h : Performs (scope.insert name element) commands t () rest events) :
    Performs scope (runElement commands name element) t ((t.length : Int) - rest.length) t events := by
  intro s hs hscope hahead
  obtain ⟨used, log, ht, hok, hadds⟩ := h { s with cursor := s.cursor.assign name element }
    ⟨hs.nonneg, hs.le_length⟩ (by rw [← hscope]; rfl) hahead
  have hoffset : (t.length : Int) - rest.length = used.length := by
    rw [ht, List.length_append]
    omega
  have hwithin : within (s.cursor.assign name element)
      (commands >>= fun _ => index >>= fun i => pure (i - s.cursor.index)) s =
        .ok (used.length : Int) (s.logged log) := by
    have hdifference : s.cursor.index + (used.length : Int) - s.cursor.index = used.length := by omega
    have hinner := bind_of_ok (f := fun _ => index >>= fun i => pure (i - s.cursor.index)) hok
    have hresult := within_of_ok hinner
    rw [← hdifference]
    exact hresult
  -- the cursor is the one before the loop again, and the rest only writes a line
  have hnumeral : s.cursor.numeral? used.length = some (Numeral.ofInt used.length) := by
    have hlength := length_ahead hs
    have h0 := hs.nonneg
    rw [hahead, ht, List.length_append] at hlength
    apply if_pos
    omega
  have hliteral : Reads (literalOf element) t shown t := by
    unfold literalOf
    rw [hshown]
    exact reads_pure shown t
  have htrace : Performs scope (literalOf element >>= fun shown =>
      trace [some "ITER".toList, some name, some ['='], some shown, some "offset".toList,
        s.cursor.numeral? used.length] >>= fun _ => pure (used.length : Int))
      t (used.length : Int) t [] := by
    rw [hnumeral]
    apply Performs.bind_of_reads hliteral
    exact (performs_trace ["ITER".toList, name, ['='], shown, "offset".toList,
      Numeral.ofInt used.length]).bind_left (performs_pure (used.length : Int))
  obtain ⟨used', log', ht', hok', hadds'⟩ := htrace (s.logged log) hs hscope hahead
  refine ⟨used', log', ht', ?_, List.append_nil events ▸ hadds.trans hadds'⟩
  rw [hoffset]
  unfold runElement
  rw [cursor_bind]
  exact (bind_of_ok hwithin).trans hok'

theorem performs_iterate_go {events : Nat → List Event}
    (h : ∀ k < elements.size,
      Performs scope (runElement commands name (elements.get k)) t offset t (events k))
    (left : Nat) (hleft : left ≤ elements.size) {first : Option Int}
    (hfirst : first.getD offset = offset) (done : List Int) :
    Performs scope (iterate.go commands name elements left first done) t
      (done.reverse ++ List.replicate left offset) t
      ((List.range' (elements.size - left) left).flatMap events) := by
  induction left generalizing first done with
  | zero =>
    rw [List.replicate_zero, List.append_nil]
    exact performs_pure done.reverse
  | succ left ih =>
    have hnext : elements.size - (left + 1) + 1 = elements.size - left := by omega
    rw [List.range'_succ, hnext, List.flatMap_cons]
    unfold iterate.go
    apply (h (elements.size - (left + 1)) (by omega)).bind
    simp only [hfirst, ne_eq, not_true_eq_false, ↓reduceIte]
    have hrest := ih (by omega) (Option.getD_some (a := offset)) (offset :: done)
    rw [List.reverse_cons, List.append_assoc] at hrest
    exact hrest

/--
If every element has a run that takes the text up to `rest`, the loop performs the events of these
runs one after the other, and takes that text once.
-/
theorem performs_iterate {events : Nat → List Event} (hsize : elements.size ≠ 0)
    (hrest : rest <:+ t)
    (hshown : ∀ k < elements.size, ∃ shown, (elements.get k).literal? = some shown)
    (h : ∀ k < elements.size,
      Performs (scope.insert name (elements.get k)) commands t () rest (events k)) :
    ∃ offsets, offsets ≠ [] ∧ Performs scope (iterate commands name elements) t offsets rest
      ((List.range elements.size).flatMap events) := by
  obtain ⟨used, rfl⟩ := hrest
  have hruns : ∀ k < elements.size,
      Performs scope (runElement commands name (elements.get k)) (used ++ rest) (used.length : Int)
        (used ++ rest) (events k) := by
    intro k hk
    obtain ⟨shown, hshown⟩ := hshown k hk
    have hrun := performs_runElement hshown (h k hk)
    rw [List.length_append, Int.natCast_add, Int.add_sub_cancel] at hrun
    exact hrun
  have hgo := performs_iterate_go hruns elements.size (Nat.le_refl _) Option.getD_none []
  rw [Nat.sub_self, ← List.range_eq_range', List.reverse_nil, List.nil_append] at hgo
  refine ⟨List.replicate elements.size (used.length : Int), by simpa using hsize, ?_⟩
  have hhead : (List.replicate elements.size (used.length : Int)).head? = some (used.length : Int) := by
    rw [List.head?_replicate, if_neg hsize]
  have hadvance : Reads (advance used.length) (used ++ rest) () rest :=
    ⟨used, rfl, fun _ _ _ => rfl⟩
  unfold iterate
  apply hgo.bind_left
  simp only [hhead]
  exact Performs.bind_of_reads hadvance (performs_pure _)

end Loop

namespace Standard

variable {evaluator : Evaluator}

theorem performs_say {message : Text}
    (h : ReadsIn scope (Read.string evaluator.unit { stop := some .never }) t message rest) :
    Performs scope (say evaluator) t .null rest [.effect ⟨.stdout, message⟩] := by
  unfold say
  apply h.performs.bind_right
  exact (performs_emit .stdout message).bind_left (performs_pure Value.null)

theorem performs_range {start stop step : Int} {t₁ t₂ t₃ : Text} (hstep : step ≠ 0)
    (h₁ : Reads (Read.int evaluator.unit {}) t (some start) t₁)
    (h₂ : Reads (Read.int evaluator.unit {}) t₁ (some stop) t₂)
    (h₃ : Reads (Read.int evaluator.unit {}) t₂ (some step) t₃) :
    Performs scope (range evaluator) t (.range start stop step) t₃ [] := by
  unfold range
  apply performs_index_bind
  intro _
  apply Performs.bind_of_reads h₁
  apply Performs.bind_of_reads h₂
  apply performs_index_bind
  intro _
  apply Performs.bind_of_reads h₃
  simp only [Option.getD_some, hstep, ↓reduceIte]
  exact performs_pure _

/--
What a loop performs, from what its body performs for each of its elements.
-/
theorem performs_forEach (hreader : Verbatim evaluator.unit (· != '$')) {name body : Text}
    (hne : name ≠ []) (hname : ∀ c ∈ name, Text.isNameChar c = true) {v : Value}
    {elements : Elements} {events : Nat → List Event} (ht : t.dropSpaces = t)
    (hcommand : Performs scope evaluator.command t v ("do ".toList ++ body) [])
    (helements : v.elements? = some elements) (hsize : elements.size ≠ 0)
    (hshown : ∀ k < elements.size, ∃ shown, (elements.get k).literal? = some shown)
    (hbody : body.dropSpaces = body) (hrest : rest <:+ body)
    (h : ∀ k < elements.size,
      Performs (scope.insert name (elements.get k)) evaluator.commands body () rest (events k)) :
    Performs scope (forEach evaluator) (name ++ " in ".toList ++ t) .null rest
      ((List.range elements.size).flatMap events) := by
  have hreadname : Reads (Read.name false) (name ++ " in ".toList ++ t) name (" in ".toList ++ t) := by
    have hread := reads_name (name ++ " in ".toList ++ t)
    rw [List.append_assoc, List.takeWhile_append_of_pos hname, List.dropWhile_append_of_pos hname,
      ← List.append_assoc] at hread
    simpa [Text.isNameChar, Text.isDigit] using hread
  have hin : Reads (Read.string evaluator.unit {}) ("in ".toList ++ t) ['i', 'n'] t := by
    have hword := reads_word hreader (w := ['i', 'n']) (by decide) t
    rw [ht] at hword
    exact hword
  have hdo : Reads (Read.string evaluator.unit {}) ("do ".toList ++ body) ['d', 'o'] body := by
    have hword := reads_word hreader (w := ['d', 'o']) (by decide) body
    rw [hbody] at hword
    exact hword
  obtain ⟨offsets, hoffsets, hiterate⟩ := performs_iterate hsize hrest hshown h
  unfold forEach
  apply performs_index_bind
  intro _
  apply Performs.bind_of_reads hreadname
  simp only [List.isEmpty_iff, hne, ↓reduceIte]
  apply Performs.bind_of_reads (reads_spaces _)
  apply performs_index_bind
  intro _
  apply Performs.bind_of_reads hin
  rw [if_pos rfl]
  apply performs_index_bind
  intro _
  apply hcommand.bind_right
  simp only [helements]
  apply performs_index_bind
  intro _
  apply Performs.bind_of_reads hdo
  rw [if_pos rfl]
  apply hiterate.bind_left
  simp only [hoffsets, ↓reduceIte]
  exact performs_pure Value.null

end Standard

end LineScript
