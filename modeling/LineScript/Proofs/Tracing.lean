import LineScript.Proofs.Inherited
import LineScript.Proofs.Invoke
import LineScript.Proofs.Runs

/-!
This module contains the proof that a run does not depend on whether it is watched. Without the one
who watches, a state is the same except that the lines for the one who watches are not in its log; a
computation is quiet if it goes on from there as it would have gone on. A line that can be written
does no harm. An index or a distance that stands in a line can be written because the cursor is in its
text, so this is what the induction over the levels has to carry along.
-/

namespace LineScript

/--
The state if nobody watches, and nobody has watched.
-/
def State.quiet (s : State) : State := { s with tracing := false, log := s.log.live.toArray }

theorem Log.live_push {log : Log} {event : Event} (h : event.trace? = none) :
    live (log.push event) = log.live ++ [event] := by
  simp [live, h]

theorem State.quiet_note (s : State) (line : Text) : (s.note line).quiet = s.quiet := by
  unfold note
  split
  . simp [push, quiet, Log.live, Event.trace?]
  . rfl

namespace Eval

open Cursor

variable {α β : Type} {s : State}

def quiet : EStateM.Result Stop State α → EStateM.Result Stop State α
  | .ok a s => .ok a s.quiet
  | .error e s => .error e s.quiet

/--
From this state, the computation does the same if nobody watches.
-/
def QuietAt (x : Eval α) (s : State) : Prop := x s.quiet = quiet (x s)

def Quiet (x : Eval α) : Prop := ∀ s, QuietAt x s

theorem QuietAt.bind {x : Eval α} {f : α → Eval β} (hx : QuietAt x s)
    (hf : ∀ a s', x s = .ok a s' → QuietAt (f a) s') : QuietAt (x >>= f) s := by
  unfold QuietAt at *
  cases hs : x s with
  | ok a s' =>
    rw [hs] at hx
    rw [bind_of_ok hs, bind_of_ok hx]
    exact hf a s' hs
  | error e s' =>
    rw [hs] at hx
    rw [bind_of_error hs, bind_of_error hx]
    rfl

theorem QuietAt.bind_takes {x : Eval α} {f : α → Eval β} {R : Text → α → Prop} (hx : QuietAt x s)
    (htakes : Takes x s R) (hs : s.cursor.InText)
    (hf : ∀ used a s', s.cursor.Took used s'.cursor → s'.cursor.InText → R used a →
      QuietAt (f a) s') : QuietAt (x >>= f) s := by
  apply hx.bind
  intro a s' hok
  obtain ⟨used, htook, hused⟩ := Yields.of_ok htakes hok
  exact hf used a s' htook (htook.inText hs) hused

theorem QuietAt.within {x : Eval α} {c : Cursor} (h : QuietAt x { s with cursor := c }) :
    QuietAt (within c x) s := by
  have hstate : State.quiet { s with cursor := c } = { s.quiet with cursor := c } := rfl
  unfold QuietAt at *
  rw [hstate] at h
  unfold Eval.within
  rw [h]
  cases x { s with cursor := c } <;> rfl

theorem quiet_trace (words : List Text) : Quiet (trace (words.map some)) := by
  intro s
  unfold QuietAt
  rw [trace_eq_note, trace_eq_note]
  simp only [quiet, State.quiet_note]
  rfl

theorem quiet_record {event : Event} (h : event.Standard) : Quiet (record event) := by
  have hlive : event.trace? = none := by
    cases event with
    | trace t => cases h
    | _ => rfl
  intro s
  have hpush : (Log.live (s.log.push event)).toArray = s.log.live.toArray.push event := by
    rw [Log.live_push hlive]
    simp
  show EStateM.Result.ok () { s.quiet with log := s.log.live.toArray.push event } = _
  rw [← hpush]
  rfl

theorem inherited_quiet : Inherited Quiet where
  pure := fun _ _ => rfl
  throw := fun _ _ => rfl
  cursor := fun _ => rfl
  moveTo := fun _ _ => rfl
  advance := fun _ _ => rfl
  record := fun _ h => quiet_record h
  trace := fun words _ => quiet_trace words
  bind_of_ok := fun hx hf s => (hx s).bind fun a s' hok => hf a s s' hok s'

end Eval

open Eval Cursor Read

/--
The contract of an evaluator: units are quiet everywhere, and commands wherever the cursor is in its
text.
-/
structure Evaluator.Quiet (evaluator : Evaluator) : Prop where
  unit : Eval.Quiet evaluator.unit
  command : ∀ s : State, s.cursor.InText → QuietAt evaluator.command s
  commands : ∀ s : State, s.cursor.InText → QuietAt evaluator.commands s

variable {evaluator : Evaluator} {s : State}

theorem Evaluator.Quiet.unit_above (h : evaluator.Quiet) : Eval.Quiet (Read.unit evaluator) := by
  apply inherited_quiet.unit h.unit
  intro c t s
  exact (h.command _ (spawn_inText c t)).within

theorem Cursor.InText.exists_numeral? {c c' : Cursor} (hc : c.InText) (hbuffer : c'.buffer = c.buffer) :
    ∃ t, c'.numeral? c.index = some t := by
  have h0 := hc.nonneg
  have h1 := hc.le_length
  refine ⟨Numeral.ofInt c.index, if_pos ?_⟩
  rw [hbuffer]
  omega

theorem quietAt_findCommand (registry : Registry Command) (hsound : evaluator.Sound)
    (hunit : Eval.Quiet evaluator.unit) (hs : s.cursor.InText) :
    QuietAt (findCommand registry evaluator.unit) s := by
  unfold findCommand
  apply (inherited_quiet.spaces s).bind_takes (takes_spaces hs) hs
  intro _ _ s₁ _ hs₁ _
  apply (inherited_quiet.index s₁).bind
  rintro start _ ⟨⟩
  apply (inherited_quiet.string hunit {} s₁).bind_takes (takes_string {} hs₁ hsound.reader) hs₁
  intro _ name s₂ h₂ _ _
  split
  . exact inherited_quiet.pure _ s₂
  . split
    . exact inherited_quiet.fault _ _ s₂
    . apply (inherited_quiet.cursor s₂).bind
      rintro c _ ⟨⟩
      obtain ⟨numeral, hnumeral⟩ := hs₁.exists_numeral? h₂.buffer_eq
      have hcall : Eval.Quiet (trace [some "CALL".toList, some name, some "at".toList, some numeral]) :=
        quiet_trace ["CALL".toList, name, "at".toList, numeral]
      rw [hnumeral]
      exact inherited_quiet.bind hcall (fun _ => inherited_quiet.pure _) s₂

theorem quietAt_runElement {commands : Eval Unit} (name : Text) (element : Value)
    (hcommands : ∀ s : State, s.cursor.InText → QuietAt commands s)
    (htakes : ∀ s : State, s.cursor.InText → Takes commands s fun _ _ => True)
    (hs : s.cursor.InText) : QuietAt (runElement commands name element) s := by
  have hassign : (s.cursor.assign name element).InText := ⟨hs.nonneg, hs.le_length⟩
  have hmeasure : QuietAt (do
      commands
      return (← index) - s.cursor.index) { s with cursor := s.cursor.assign name element } := by
    apply (hcommands { s with cursor := s.cursor.assign name element } hassign).bind
    intro _ s' _
    exact inherited_quiet.bind inherited_quiet.index (fun _ => inherited_quiet.pure _) s'
  unfold runElement
  apply (inherited_quiet.cursor s).bind
  rintro c _ ⟨⟩
  apply hmeasure.within.bind
  intro offset s₁ hrun
  -- the distance is one that the commands have taken, so it is no longer than the text
  obtain ⟨numeral, hnumeral⟩ : ∃ t, s.cursor.numeral? offset = some t := by
    have hoffset : Yields (within (s.cursor.assign name element) do
        commands
        return (← index) - s.cursor.index) s (fun offset _ => s.cursor.IsOffset offset)
          fun _ _ => True := by
      simp only [yields_within, yields_bind]
      apply Yields.mono (htakes { s with cursor := s.cursor.assign name element } hassign)
      . rintro _ s' ⟨used, htook, _⟩
        have hindex : s'.cursor.index = s.cursor.index + used.length := htook.index_eq
        refine ⟨used, htook.isPrefix, ?_⟩
        omega
      . intro _ _ _
        trivial
    obtain ⟨used, hprefix, rfl⟩ := hoffset.of_ok hrun
    have hlength := length_ahead hs
    have hle := hprefix.length_le
    have h0 := hs.nonneg
    exact ⟨_, if_pos (by omega)⟩
  rw [hnumeral]
  apply inherited_quiet.bind (inherited_quiet.orFail _ _) _ s₁
  intro shown
  have hiter : Eval.Quiet (trace [some "ITER".toList, some name, some ['='], some shown,
      some "offset".toList, some numeral]) :=
    quiet_trace ["ITER".toList, name, ['='], shown, "offset".toList, numeral]
  exact inherited_quiet.bind hiter fun _ => inherited_quiet.pure _

theorem iterate.quietAt_go {commands : Eval Unit} {name : Text} {elements : Elements}
    (hcommands : ∀ s : State, s.cursor.InText → QuietAt commands s)
    (htakes : ∀ s : State, s.cursor.InText → Takes commands s fun _ _ => True) (left : Nat)
    (first : Option Int) (done : List Int) (hs : s.cursor.InText) :
    QuietAt (go commands name elements left first done) s := by
  induction left generalizing first done s with
  | zero => exact inherited_quiet.pure _ s
  | succ left ih =>
    unfold go
    apply (quietAt_runElement name _ hcommands htakes hs).bind
    intro offset s₁ hrun
    have hcursor := (Yields.of_ok (yields_runElement htakes hs) hrun).1
    have hs₁ : s₁.cursor.InText := hcursor ▸ hs
    dsimp only
    split
    . apply (inherited_quiet.failUneven _ _ _ s₁).bind
      intro _ s₂ hfail
      exact (Yields.of_ok (Q := fun _ _ => False) (E := fun _ _ => True)
        (yields_failUneven _ _ _ trivial trivial) hfail).elim
    . exact ih _ _ hs₁

theorem quietAt_iterate {commands : Eval Unit} (name : Text) (elements : Elements)
    (hcommands : ∀ s : State, s.cursor.InText → QuietAt commands s)
    (htakes : ∀ s : State, s.cursor.InText → Takes commands s fun _ _ => True)
    (hs : s.cursor.InText) : QuietAt (iterate commands name elements) s := by
  unfold iterate
  apply (iterate.quietAt_go hcommands htakes _ none [] hs).bind
  intro offsets s₁ _
  split
  . exact inherited_quiet.bind (inherited_quiet.advance _) (fun _ => inherited_quiet.pure _) s₁
  . exact inherited_quiet.pure _ s₁

namespace Standard

theorem quietAt_forEach (hsound : evaluator.Sound) (h : evaluator.Quiet) (hs : s.cursor.InText) :
    QuietAt (forEach evaluator) s := by
  have hname : Takes (name false) s fun _ _ => True :=
    takes_of_eq (name_eq hs) (List.takeWhile_prefix _) trivial
  unfold forEach
  apply (inherited_quiet.index s).bind
  rintro place _ ⟨⟩
  apply (inherited_quiet.name false s).bind_takes hname hs
  intro _ loopName s₁ _ hs₁ _
  dsimp only
  split
  . exact inherited_quiet.fault_bind _ _ _ s₁
  . apply (inherited_quiet.spaces s₁).bind_takes (takes_spaces hs₁) hs₁
    intro _ _ s₂ _ hs₂ _
    apply (inherited_quiet.index s₂).bind
    rintro place _ ⟨⟩
    apply (inherited_quiet.string h.unit {} s₂).bind_takes (takes_string {} hs₂ hsound.reader) hs₂
    intro _ specifier s₃ _ hs₃ _
    split
    . apply (inherited_quiet.index s₃).bind
      rintro place _ ⟨⟩
      apply (h.command s₃ hs₃).bind_takes (hsound.command s₃ hs₃) hs₃
      intro _ v s₄ _ hs₄ _
      split
      . next elements _ =>
        apply (inherited_quiet.index s₄).bind
        rintro place _ ⟨⟩
        apply (inherited_quiet.string h.unit {} s₄).bind_takes (takes_string {} hs₄ hsound.reader) hs₄
        intro _ action s₅ _ hs₅ _
        split
        . apply (quietAt_iterate loopName elements h.commands hsound.commands hs₅).bind
          intro offsets s₆ _
          split
          . exact inherited_quiet.bind inherited_quiet.emptyLoopWarnings
              (fun _ => inherited_quiet.pure _) s₆
          . exact inherited_quiet.pure _ s₆
        . exact inherited_quiet.fault_bind _ _ _ s₅
      . exact inherited_quiet.bind (inherited_quiet.orFail _ _)
          (fun _ => inherited_quiet.fault _ _) s₄
    . exact inherited_quiet.fault_bind _ _ _ s₃

theorem quietAt_body {name : Text} {command : Command} (hlookup : registry.lookup name = some command)
    (hsound : evaluator.Sound) (h : evaluator.Quiet) (hs : s.cursor.InText) :
    QuietAt (command.body evaluator) s := by
  obtain ⟨-, hbody⟩ | ⟨-, hbody⟩ | ⟨-, hbody⟩ | ⟨-, hbody⟩ | ⟨-, hbody⟩ | ⟨-, hbody⟩ :=
    lookup_cases hlookup
  . exact hbody ▸ quietAt_forEach hsound h hs
  . exact hbody ▸ inherited_quiet.range h.unit s
  . exact hbody ▸ inherited_quiet.giveBack h.unit s
  . exact hbody ▸ inherited_quiet.say h.unit s
  . exact hbody ▸ inherited_quiet.sleep h.unit s
  . exact hbody ▸ inherited_quiet.block h.unit
      (fun c t _ => (h.commands _ (spawn_inText c t)).within) s

end Standard

namespace Evaluator

theorem Quiet.command_above (hsound : evaluator.Sound) (h : evaluator.Quiet)
    (hs : s.cursor.InText) : QuietAt (above Standard.registry evaluator).command s := by
  apply (quietAt_findCommand _ hsound.unit_above h.unit_above hs).bind_takes
    (takes_findCommand _ hsound.unit_above hs) hs
  intro _ found s₁ _ hs₁ hfound
  split
  . exact inherited_quiet.pure _ s₁
  . next command =>
    obtain ⟨-, name, hlookup, -⟩ := hfound command rfl
    exact Standard.quietAt_body hlookup hsound.unit_above ⟨h.unit_above, h.command, h.commands⟩ hs₁

theorem Quiet.above (hsound : evaluator.Sound) (h : evaluator.Quiet) :
    (above Standard.registry evaluator).Quiet where
  unit := h.unit_above
  command := fun _ hs => h.command_above hsound hs
  commands := by
    intro s hs
    apply (h.command_above hsound hs).bind_takes
      (hsound.takes_command Standard.sound_registry hs) hs
    intro _ v s₁ _ hs₁ _
    split
    . exact inherited_quiet.pure _ s₁
    . exact h.commands s₁ hs₁

theorem quiet_ofLevel (level : Nat) : (ofLevel Standard.registry level).Quiet := by
  induction level with
  | zero =>
    exact ⟨inherited_quiet.throw _, fun s _ => inherited_quiet.throw _ s,
      fun s _ => inherited_quiet.throw _ s⟩
  | succ level ih => exact ih.above (Standard.sound_ofLevel level)

end Evaluator

namespace Session

variable {session : Session} {source : Text}

/--
The session with or without someone who watches.
-/
def watched (session : Session) (tracing : Bool) : Session := { session with tracing }

theorem effects_live (log : Log) : Log.effects log.live.toArray = log.effects := by
  unfold Log.effects Log.live
  rw [List.filterMap_filter]
  congr 1
  funext event
  cases event <;> rfl

theorem trace_live (log : Log) : Log.trace log.live.toArray = [] := by
  have hnone : log.live.filterMap Event.trace? = [] := by
    rw [List.filterMap_eq_nil_iff]
    intro event hmem
    simpa using (List.mem_filter.mp hmem).2
  unfold Log.trace
  rw [hnone]
  rfl

theorem commands_quiet (session : Session) (level : Nat) (source : Text) :
    ((session.standard level).watched false).fresh.evaluator.commands
        (((session.standard level).watched false).fresh.start source) =
      quiet (((session.standard level).watched true).fresh.evaluator.commands
        (((session.standard level).watched true).fresh.start source)) :=
  (Evaluator.quiet_ofLevel level).commands (((session.standard level).watched true).fresh.start source)
    (spawn_inText { buffer := [] } source)

theorem run?_of_watched {level : Nat} {report : Report} {next : Session}
    (h : ((session.standard level).watched true).fresh.run? source = some (report, next)) :
    ∃ next', ((session.standard level).watched false).fresh.run? source = some (report, next') ∧
      next'.log = next.log.live.toArray := by
  have hquiet := commands_quiet session level source
  unfold run? at h
  split at h
  . next s hok =>
    cases h
    rw [hok] at hquiet
    have hrun := run?_of_ok hquiet
    simp only [newEvents_fresh, State.quiet, effects_live] at hrun ⊢
    exact ⟨_, hrun, rfl⟩
  . next stop s hstop =>
    obtain ⟨problem, hproblem, heq⟩ := Option.map_eq_some_iff.mp h
    cases heq
    rw [hstop] at hquiet
    have hrun := run?_of_error hquiet hproblem
    simp only [newEvents_fresh, State.quiet, effects_live] at hrun ⊢
    exact ⟨_, hrun, rfl⟩

/--
Whether a line is watched makes no difference to its report, nor to the messages that it sends and the
waits that it makes, in the order in which they happen. If it is not watched, nothing is written for
the one who watches.
-/
theorem run?_watched_or_not (session : Session) (source : Text) :
    ∃ level, ∀ m, level ≤ m →
      ∃ report seen unseen,
        ((session.standard m).watched true).run? source = some (report, seen) ∧
        ((session.standard m).watched false).run? source = some (report, unseen) ∧
        (session.newEvents unseen.log).toList = (session.newEvents seen.log).live ∧
        (session.newEvents unseen.log).trace = [] := by
  obtain ⟨level, hlevel⟩ := exists_level_run? (session.watched true).fresh [source]
  refine ⟨level, fun m hm => ?_⟩
  obtain ⟨⟨report, alone⟩, hrun⟩ :=
    Option.isSome_iff_exists.mp (hlevel m hm source List.mem_cons_self)
  have halone : ((session.standard m).watched true).fresh.run? source = some (report, alone) := hrun
  obtain ⟨alone', halone', hlog⟩ := run?_of_watched halone
  obtain ⟨seen, hseen, -, hevents⟩ := run?_of_fresh Standard.appends_registry halone
  obtain ⟨unseen, hunseen, -, hevents'⟩ := run?_of_fresh Standard.appends_registry halone'
  have hnew : session.newEvents seen.log = alone.log := hevents.trans (newEvents_fresh _ _)
  have hnew' : session.newEvents unseen.log = alone.log.live.toArray :=
    (hevents'.trans (newEvents_fresh _ _)).trans hlog
  refine ⟨report, seen, unseen, hseen, hunseen, ?_, ?_⟩
  . rw [hnew, hnew']
  . rw [hnew']
    exact trace_live alone.log

end Session

end LineScript
