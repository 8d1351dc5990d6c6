import LineScript.Proofs.Bounds
import LineScript.Proofs.Runs

/-!
This module contains the events that a run of the standard commands leaves in the log. A message on
the standard error is one of two warnings, and what is written for the one who watches is one line.
The words for a problem have a line for the text in question and another one for the message, so no
event of a run is taken for them.
-/

namespace LineScript

/--
An event that a run leaves: one of a standard command, or a line for the one who watches.
-/
def Event.Regular : Event → Prop
  | .trace t => ∃ (line : Text) (last : Char), line.OneLine ∧ t = line ++ [last]
  | event => event.Standard

theorem Event.Standard.regular {event : Event} (h : event.Standard) : event.Regular := by
  cases event with
  | trace t => exact h.elim
  | effect e => exact h
  | pause seconds => exact h

/--
All events so far are regular.
-/
def State.Regular (s : State) : Prop := ∀ event ∈ s.log, event.Regular

theorem State.Regular.push {s : State} (h : s.Regular) {event : Event} (hevent : event.Regular) :
    State.Regular { s with log := s.log.push event } := by
  intro other hmem
  cases Array.mem_push.mp hmem with
  | inl hold => exact h other hold
  | inr heq => exact heq ▸ hevent

namespace Eval

variable {α β : Type}

/--
The computation adds regular events only.
-/
def Regular (x : Eval α) : Prop := ∀ s : State, s.Regular → (final (x s)).Regular

theorem Regular.bind_of_ok {x : Eval α} {f : α → Eval β} (hx : Regular x)
    (hf : ∀ a s s', x s = .ok a s' → Regular (f a)) : Regular (x >>= f) := by
  intro s hs
  apply final_bind (hx s hs)
  intro a s' hok hs'
  exact hf a s s' hok s' hs'

theorem regular_within {x : Eval α} (c : Cursor) (hx : Regular x) : Regular (within c x) := by
  intro s hs
  rw [final_within]
  exact hx { s with cursor := c } hs

theorem regular_trace {words : List (Option Text)}
    (hwords : ∀ word, some word ∈ words → word.OneLine) : Regular (trace words) := by
  intro s hs
  have hline : Text.OneLine (Text.join [' ']
      ("[DBG]".toList :: (words.takeWhile (·.isSome)).filterMap id)) := by
    apply Text.oneLine_join (by decide)
    rw [List.forall_mem_cons]
    refine ⟨by decide, ?_⟩
    intro word hmem
    obtain ⟨_, htaken, rfl⟩ := List.mem_filterMap.mp hmem
    exact hwords word ((List.takeWhile_prefix _).subset htaken)
  apply final_of_yields (Q := State.Regular)
  unfold trace
  simp only [yields_bind, yields_get]
  split
  . simp only [yields_bind, yields_record]
    split
    . exact hs.push ⟨_, _, hline, rfl⟩
    . exact hs.push ⟨_, _, hline, rfl⟩
  . exact hs

theorem inherited_regular : Inherited Regular where
  pure := fun _ _ hs => hs
  throw := fun _ _ hs => hs
  cursor := fun _ hs => hs
  moveTo := fun _ _ hs => hs
  advance := fun _ _ hs => hs
  record := fun _ hevent _ hs => hs.push hevent.regular
  trace := by
    intro words hwords
    apply regular_trace
    intro word hmem
    obtain ⟨_, hword, heq⟩ := List.mem_map.mp hmem
    exact Option.some.inj heq ▸ hwords _ hword
  bind_of_ok := Regular.bind_of_ok

end Eval

namespace Standard

theorem oneLine_of_lookup {name : Text} {command : Command}
    (h : registry.lookup name = some command) : name.OneLine := by
  obtain ⟨rfl, -⟩ | ⟨rfl, -⟩ | ⟨rfl, -⟩ | ⟨rfl, -⟩ | ⟨rfl, -⟩ | ⟨rfl, -⟩ := lookup_cases h
  all_goals decide

theorem regular_ofLevel (level : Nat) : (Evaluator.ofLevel registry level).Has Eval.Regular := by
  apply Eval.inherited_regular.ofLevel Eval.regular_within
  . intro name command c i hlookup
    apply Eval.regular_trace
    intro word hword
    simp only [List.mem_cons, Option.some.injEq, List.not_mem_nil, or_false] at hword
    obtain rfl | rfl | rfl | hnumeral := hword
    . decide
    . exact oneLine_of_lookup hlookup
    . decide
    . exact Cursor.oneLine_of_numeral? hnumeral.symm
  . exact Eval.inherited_regular.standard Eval.regular_within fun _ => Eval.regular_trace

end Standard

theorem not_oneLine_render (buffer : Text) (index : Option Int) (message : Text) :
    ¬ (render buffer index message).OneLine := by
  intro h
  apply h
  unfold render
  cases index with
  | none => simp [Text.join]
  | some i => simp [Text.join]

theorem Problem.not_oneLine_format {problem : Problem} {buffer : Text}
    (h : problem.buffer = some buffer) : ¬ problem.format.OneLine := by
  unfold format
  rw [h]
  exact not_oneLine_render _ _ _

namespace Session

open Eval

variable {session : Session} {source : Text} {report : Report} {next : Session}

theorem log_of_run? (h : session.run? source = some (report, next)) :
    next.log = (final (session.evaluator.commands (session.start source))).log := by
  unfold run? at h
  split at h
  . next hok =>
    cases h
    rw [hok]
    rfl
  . next hstop =>
    obtain ⟨problem, -, heq⟩ := Option.map_eq_some_iff.mp h
    cases heq
    rw [hstop]
    rfl

theorem regular_newEvents (hregistry : session.registry = Standard.registry)
    (h : session.run? source = some (report, next)) :
    ∀ event ∈ session.newEvents next.log, event.Regular := by
  have happends : session.registry.Appends := hregistry ▸ Standard.appends_registry
  rw [run?_eq_fresh happends, Option.map_eq_some_iff] at h
  obtain ⟨⟨report, alone⟩, halone, heq⟩ := h
  cases heq
  have hcommands := (Standard.regular_ofLevel session.level).commands
  rw [← hregistry] at hcommands
  rw [newEvents_append, log_of_run? halone]
  exact hcommands (session.fresh.start source) nofun

theorem exists_buffer_of_problem? {c : Cursor} {stop : Stop} {problem : Problem}
    (h : problem? c stop = some problem) : ∃ buffer, problem.buffer = some buffer := by
  cases stop with
  | exhausted => cases h
  | failure failure =>
    cases h
    exact ⟨_, rfl⟩
  | fault f =>
    cases h
    obtain ⟨cause, index, buffer⟩ := f
    cases buffer with
    | none => exact ⟨_, rfl⟩
    | some buffer => exact ⟨buffer, rfl⟩

theorem not_oneLine_format (h : session.run? source = some (report, next))
    (hfailure : report.isSuccess = false) : ¬ report.format.OneLine := by
  unfold run? at h
  split at h
  . cases h
    cases hfailure
  . obtain ⟨problem, hproblem, heq⟩ := Option.map_eq_some_iff.mp h
    cases heq
    obtain ⟨buffer, hbuffer⟩ := exists_buffer_of_problem? hproblem
    exact Problem.not_oneLine_format hbuffer

end Session

end LineScript
