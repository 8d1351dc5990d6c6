import LineScript.Proofs.Escapes
import LineScript.Proofs.Invoke
import LineScript.Proofs.Runs
import Mathlib.Logic.Function.Iterate

/-!
This module contains programs inside programs. A text becomes the text of a block when a backslash is
put before each of its characters: the read of the block then takes every character as it is. The
block runs the text as the text would be run by itself, except that a failure is reported at the
block.
-/

namespace LineScript

def Text.escaped (t : Text) : Text := t.flatMap fun c => ['\\', c]

theorem Text.escapes_escaped (marks : Char → Prop) (afterDollar : Bool) (t : Text) :
    Escapes marks afterDollar t t.escaped := by
  induction t generalizing afterDollar with
  | nil => exact .nil afterDollar
  | cons c t ih => exact .escaped c (ih _)

/--
The program that runs the text as a block.
-/
def Text.quoted (t : Text) : Text := '{' :: ' ' :: (t.escaped ++ ['}'])

namespace Read

open Eval

variable {t rest rest' : Text} {endAtSemicolon keepStop : Bool} {stop : Matcher} {d d' : Draft}

theorem head?_escaped_append (t : Text) {c : Char} (h : (t.escaped ++ rest).head? = some c) :
    c = '\\' ∨ rest.head? = some c := by
  cases t with
  | nil => exact Or.inr h
  | cons c' t =>
    cases h
    exact Or.inl rfl

/--
The scan of an escaped text adds the text. It goes on with what comes after, which must not be taken
for the name of a variable or for a substitution.
-/
theorem scans_escaped (evaluator : Evaluator) (scope : Table Value) (t : Text)
    (hstop : stop.accepts (.text ['\\']) = false)
    (hrest : ∀ c, rest.head? = some c → c ≠ '{' ∧ Text.isNameChar c = false)
    (hd : d.escaping = false)
    (h : Scans (unit evaluator) (judgeString endAtSemicolon keepStop stop) scope (d.append t) rest d'
      rest') :
    Scans (unit evaluator) (judgeString endAtSemicolon keepStop stop) scope d (t.escaped ++ rest) d'
      rest' :=
  scans_escapes evaluator hstop (fun _ hc => absurd trivial hc)
    (Text.escapes_escaped (fun _ => True) false t) hrest hd h

theorem dropSpaces_escaped_append (t : Text) (hrest : rest.head? ≠ some ' ') :
    Text.dropSpaces (t.escaped ++ rest) = t.escaped ++ rest := by
  apply Text.dropSpaces_of_head?
  intro hhead
  obtain h | h := head?_escaped_append t hhead
  . cases h
  . exact hrest h

theorem readsIn_escaped (evaluator : Evaluator) (scope : Table Value) (t : Text) :
    ReadsIn scope (string (unit evaluator) Standard.blockOptions) (t.escaped ++ ['}']) t [] := by
  have hmatcher : Reads Standard.blockOptions.matcher (Text.dropSpaces (t.escaped ++ ['}']))
      (.literal ['}']) (t.escaped ++ ['}']) := by
    rw [dropSpaces_escaped_append t (by decide)]
    exact reads_pure _ _
  have hbrace : Scans (unit evaluator) (judgeString false true (.literal ['}'])) scope
      (Draft.append {} t) ['}'] (Draft.append {} t) [] := by
    apply (takesUnit_of_verbatim (verbatim_unit evaluator) (by decide) scope []).scans_keep
    simp [judgeString, Draft.append]
  have hname : ∀ c, ['}'].head? = some c → c ≠ '{' ∧ Text.isNameChar c = false := by
    rintro c ⟨⟩
    decide
  have hstring := readsIn_string rfl hmatcher
    (scans_escaped evaluator scope t (by simp) hname rfl hbrace)
  rw [text_append_empty] at hstring
  exact hstring

end Read

open Eval Cursor

theorem Standard.block_eq {evaluator : Evaluator} {s : State} {t text rest : Text}
    (hs : s.cursor.InText) (hahead : s.cursor.ahead = t)
    (h : ReadsIn s.cursor.scope (Read.string evaluator.unit blockOptions) t text rest) :
    ∃ used, t = used ++ rest ∧ block evaluator s =
      (within (s.cursor.spawn text) evaluator.commands >>= fun _ => pure .null)
        (s.advance used.length) := by
  obtain ⟨used, hused, hx, -⟩ := h.exists_used hs rfl hahead
  refine ⟨used, hused, ?_⟩
  unfold block
  rw [bind_of_ok hx, cursor_bind]
  rfl

def Problem.Internal (problem : Problem) : Prop := "InternalError: ".toList <+: problem.message

namespace Session

variable {session : Session} {source : Text}

/--
The second of two runs of a session shows what the first one shows. Only an internal failure may be
reported at another place.
-/
structure Mirrors (session : Session) (run run' : Report × Session) : Prop where
  events : (session.newEvents run'.2.log).live = (session.newEvents run.2.log).live
  status : run'.1.isSuccess = run.1.isSuccess
  message : run'.1.problem.map (·.message) = run.1.problem.map (·.message)
  problem : ∀ problem, run.1.problem = some problem → ¬ problem.Internal →
    run'.1.problem = some problem

theorem Mirrors.refl (session : Session) (run : Report × Session) : session.Mirrors run run :=
  ⟨rfl, rfl, rfl, fun _ h _ => h⟩

theorem Mirrors.trans {run run' run'' : Report × Session} (h : session.Mirrors run run')
    (h' : session.Mirrors run' run'') : session.Mirrors run run'' where
  events := h'.events.trans h.events
  status := h'.status.trans h.status
  message := h'.message.trans h.message
  problem := fun p hp hinternal => h'.problem p (h.problem p hp hinternal) hinternal

theorem problem?_mirrors {stop : Stop} (hstop : stop.Placed) {c : Cursor} {problem : Problem}
    (h : problem? c stop = some problem) (c' : Cursor) :
    ∃ problem', problem? c' stop = some problem' ∧ problem'.message = problem.message ∧
      (¬ problem.Internal → problem' = problem) := by
  cases stop with
  | exhausted => cases h
  | failure failure =>
    cases h
    refine ⟨_, rfl, rfl, fun hinternal => absurd ?_ hinternal⟩
    exact List.prefix_append _ _
  | fault f =>
    -- a fault has its place already, and the cursor makes no difference
    refine ⟨problem, ?_, rfl, fun _ => rfl⟩
    rw [← h]
    simp only [problem?, Fault.Placed.locate_eq hstop]

theorem command_quoted (session : Session) (source : Text) (level : Nat) :
    ∃ (s : State) (notes : Log), notes.live = [] ∧ s.cursor.InText ∧ s.cursor.ahead = [] ∧
      { s with cursor := { buffer := source } } =
        (session.fresh.start source).after (session.log ++ notes) ∧
      (Evaluator.ofLevel Standard.registry (level + 1)).command (session.start source.quoted) =
        (within { buffer := source } (Evaluator.ofLevel Standard.registry level).commands >>=
          fun _ => pure .null) s := by
  have hin : (session.start source.quoted).cursor.InText := spawn_inText { buffer := [] } _
  have hlookup : Standard.registry.lookup ['{'] = some ⟨['{'], Standard.block⟩ := by
    rw [Standard.registry_eq]
    rfl
  have hahead : (session.start source.quoted).cursor.ahead =
      ['{'] ++ ' ' :: (source.escaped ++ ['}']) := rfl
  obtain ⟨used, hused, hcommand⟩ := Evaluator.command_of_word level hin hahead (by decide) hlookup
  rw [Read.dropSpaces_escaped_append source (by decide)] at hused
  obtain ⟨hin₁, hahead₁⟩ := advance_of_eq_append hin (hahead.trans hused)
  obtain ⟨notes, hnotes, hnote⟩ := State.exists_note_eq
    ((session.start source.quoted).advance used.length)
    (callLine ['{'] (session.start source.quoted).cursor.index)
  rw [hnote] at hcommand
  let s₁ : State :=
    { (session.start source.quoted).advance used.length with log := session.log ++ notes }
  have hread : ReadsIn s₁.cursor.scope
      (Read.string (Evaluator.bodies Standard.registry level).unit Standard.blockOptions)
      (source.escaped ++ ['}']) source [] :=
    Read.readsIn_escaped (.ofLevel Standard.registry level) .empty source
  obtain ⟨used', hused', hblock⟩ := Standard.block_eq (s := s₁) hin₁ hahead₁ hread
  obtain ⟨hin₂, hahead₂⟩ := advance_of_eq_append (s := s₁) hin₁ (hahead₁.trans hused')
  refine ⟨s₁.advance used'.length, notes, hnotes, hin₂, hahead₂, ?_, hcommand.trans hblock⟩
  simp [s₁, State.after, State.advance, start, fresh]

theorem live_newEvents_append {notes : Log} (h : notes.live = []) (log : Log) :
    (session.newEvents (session.log ++ notes ++ log)).live =
      (session.newEvents (session.log ++ log)).live := by
  rw [Array.append_assoc, newEvents_append, newEvents_append, Log.live_append, h, List.nil_append]

/--
From some level on, the run of a program has one result, whatever was in the log before.
-/
theorem exists_result (session : Session) (source : Text) :
    ∃ (n : Nat) (r : EStateM.Result Stop State Unit),
      (∀ level log, n ≤ level → (Evaluator.ofLevel Standard.registry level).commands
        ((session.fresh.start source).after log) = after log r) ∧
      ∀ stop s, r = .error stop s → stop ≠ .exhausted ∧ stop.Placed := by
  obtain ⟨n, r, hr, hne⟩ := settles_start session.fresh source
  refine ⟨n, r, ?_, ?_⟩
  . intro level log hlevel
    rw [← hr level hlevel]
    exact (Evaluator.appends_ofLevel Standard.appends_registry level).commands log _
  . rintro stop s rfl
    have htakes := (Standard.sound_ofLevel n).commands (session.fresh.start source)
      (spawn_inText { buffer := [] } source)
    constructor
    . rintro rfl
      exact hne s rfl
    . exact (Yields.of_error htakes (hr n (Nat.le_refl n))).2

theorem exists_level_mirrors_quoted (session : Session) (source : Text) :
    ∃ level, ∀ m, level ≤ m →
      ∃ run run', (session.standard m).run? source = some run ∧
        (session.standard m).run? source.quoted = some run' ∧
        (session.standard m).Mirrors run run' := by
  obtain ⟨n, r, hcommands, hstop⟩ := exists_result session source
  refine ⟨n + 2, fun m hm => ?_⟩
  obtain ⟨k, rfl⟩ : ∃ k, m = k + 2 := ⟨m - 2, by omega⟩
  have hdirect : (session.standard (k + 2)).evaluator.commands
      ((session.standard (k + 2)).start source) = after session.log r := by
    rw [start_eq_after]
    exact hcommands (k + 2) session.log (by omega)
  obtain ⟨s, notes, hnotes, hin, hend, hstate, hcommand⟩ := command_quoted session source (k + 1)
  have hblock : (Evaluator.ofLevel Standard.registry (k + 1)).commands
      { s with cursor := { buffer := source } } = after (session.log ++ notes) r := by
    rw [hstate]
    exact hcommands (k + 1) _ (by omega)
  cases r with
  | ok u t =>
    -- the block ends at the end of its line
    obtain ⟨used, hquoted⟩ := Evaluator.commands_of_closes
      (hcommand.trans (bind_of_ok (within_of_ok hblock))) rfl hin (hend ▸ .nil)
    refine ⟨_, _, run?_of_ok hdirect, run?_of_ok hquoted, ?_, rfl, rfl, nofun⟩
    exact live_newEvents_append hnotes t.log
  | error stop t =>
    obtain ⟨hne, hplaced⟩ := hstop stop t rfl
    obtain ⟨problem, hproblem⟩ := exists_problem t.cursor hne
    obtain ⟨problem', hproblem', hmessage, heq⟩ := problem?_mirrors hplaced hproblem s.cursor
    have hquoted : (session.standard (k + 2)).evaluator.commands
        ((session.standard (k + 2)).start source.quoted) =
          .error stop { t.after (session.log ++ notes) with cursor := s.cursor } :=
      bind_of_error (hcommand.trans (bind_of_error (within_of_error hblock)))
    refine ⟨_, _, run?_of_error hdirect hproblem, run?_of_error hquoted hproblem', ?_, rfl, ?_, ?_⟩
    . exact live_newEvents_append hnotes t.log
    . exact congrArg some hmessage
    . intro p hp hinternal
      obtain rfl : problem = p := Option.some.inj hp
      exact congrArg some (heq hinternal)

/--
A program inside any number of blocks shows what the program itself shows: it sends the same messages
and makes the same waits in one and the same order, and it succeeds or fails with the same message. A
fault is reported at the same place of the same text; only an internal failure is reported where the
outermost block ends.
-/
theorem mirrors_quoted_iterate (session : Session) (source : Text) (depth : Nat) :
    ∃ level, ∀ m, level ≤ m →
      ∃ run run', (session.standard m).run? source = some run ∧
        (session.standard m).run? (Text.quoted^[depth] source) = some run' ∧
        (session.standard m).Mirrors run run' := by
  induction depth with
  | zero =>
    obtain ⟨level, hlevel⟩ := exists_level_mirrors_quoted session source
    refine ⟨level, fun m hm => ?_⟩
    obtain ⟨run, -, hrun, -⟩ := hlevel m hm
    exact ⟨run, run, hrun, hrun, .refl _ run⟩
  | succ depth ih =>
    obtain ⟨level, hlevel⟩ := ih
    obtain ⟨level', hlevel'⟩ := exists_level_mirrors_quoted session (Text.quoted^[depth] source)
    refine ⟨max level level', fun m hm => ?_⟩
    obtain ⟨run, inner, hrun, hinner, hmirrors⟩ := hlevel m (by omega)
    obtain ⟨inner', outer, hinner', houter, hmirrors'⟩ := hlevel' m (by omega)
    cases hinner.symm.trans hinner'
    rw [Function.iterate_succ_apply']
    exact ⟨run, outer, hrun, houter, hmirrors.trans hmirrors'⟩

end Session

end LineScript
