import LineScript.Proofs.Appends
import LineScript.Proofs.Halting

/-!
This module contains the proof that the runs of a session do not influence each other. A run leaves
nothing behind but events in the log, and no run looks at the log. So each line of a session is run
as if it were the only one, and its report has exactly the messages that were sent while it ran.
-/

namespace LineScript.Session

open Eval Cursor

/--
The session with the standard commands and a bound on how deep its runs may go.
-/
def standard (session : Session) (level : Nat) : Session :=
  { session with registry := Standard.registry, level }

/--
The session as it is before its first run.
-/
def fresh (session : Session) : Session := { session with log := #[] }

variable {session : Session} {source : Text}

theorem start_eq_after (session : Session) (source : Text) :
    session.start source = (session.fresh.start source).after session.log := by
  unfold start State.after
  simp only [fresh, Array.append_empty]

theorem newEvents_append (session : Session) (log : Log) :
    session.newEvents (session.log ++ log) = log := by
  simp [newEvents]

theorem newEvents_fresh (session : Session) (log : Log) : session.fresh.newEvents log = log := by
  simp [newEvents, fresh]

theorem run?_eq_fresh (hregistry : session.registry.Appends) (source : Text) :
    session.run? source = (session.fresh.run? source).map fun run =>
      (run.1, { run.2 with log := session.log ++ run.2.log }) := by
  have hcommands : session.evaluator.commands (session.start source) =
      after session.log (session.fresh.evaluator.commands (session.fresh.start source)) := by
    rw [start_eq_after]
    exact (Evaluator.appends_ofLevel hregistry session.level).commands _ _
  unfold run?
  rw [hcommands]
  cases session.fresh.evaluator.commands (session.fresh.start source) with
  | ok _ s =>
    simp only [after, State.after, Option.map_some, newEvents_append, newEvents_fresh]
    rfl
  | error stop s =>
    simp only [after, State.after, Option.map_map, newEvents_append, newEvents_fresh]
    rfl

theorem run?_of_ok {s : State}
    (h : session.evaluator.commands (session.start source) = .ok () s) :
    session.run? source =
      some (.success (session.newEvents s.log).effects, { session with log := s.log }) := by
  unfold run?
  rw [h]

theorem run?_of_error {stop : Stop} {s : State} {problem : Problem}
    (h : session.evaluator.commands (session.start source) = .error stop s)
    (hproblem : problem? s.cursor stop = some problem) :
    session.run? source =
      some (.failure (session.newEvents s.log).effects problem, { session with log := s.log }) := by
  unfold run?
  rw [h]
  simp only [hproblem, Option.map_some]

theorem next_of_run? {report : Report} {next : Session}
    (h : session.run? source = some (report, next)) : next = { session with log := next.log } := by
  unfold run? at h
  split at h
  . cases h
    rfl
  . obtain ⟨problem, -, heq⟩ := Option.map_eq_some_iff.mp h
    cases heq
    rfl

theorem report_of_run? {report : Report} {next : Session}
    (h : session.run? source = some (report, next)) :
    report.value = .null ∧ report.effects = (session.newEvents next.log).effects ++
      if report.isSuccess then [] else [⟨.stderr, report.format⟩] := by
  unfold run? at h
  split at h
  . cases h
    exact ⟨rfl, (List.append_nil _).symm⟩
  . obtain ⟨problem, -, heq⟩ := Option.map_eq_some_iff.mp h
    cases heq
    exact ⟨rfl, rfl⟩

theorem run?_of_fresh (hregistry : session.registry.Appends) {report : Report} {alone : Session}
    (h : session.fresh.run? source = some (report, alone)) :
    ∃ next, session.run? source = some (report, next) ∧ next.fresh = session.fresh ∧
      session.newEvents next.log = session.fresh.newEvents alone.log := by
  have hrun := run?_eq_fresh hregistry source
  rw [h, Option.map_some] at hrun
  refine ⟨_, hrun, ?_, ?_⟩
  . rw [next_of_run? h]
    rfl
  . rw [newEvents_fresh]
    exact newEvents_append session alone.log

theorem settles_start (session : Session) (source : Text) :
    Settles (fun m => (Evaluator.ofLevel Standard.registry m).commands) (session.start source) := by
  have hstart : (session.start source).cursor.Bounded source.weight := by
    apply Bounded.spawn (c := { buffer := [] }) _ (Nat.le_refl _)
    intro name v h
    cases h
  exact ((Evaluator.settles_ofLevel source.weight).2 _ _ hstart (Nat.le_refl _)).2

theorem exists_problem (c : Cursor) {stop : Stop} (h : stop ≠ .exhausted) :
    ∃ problem, problem? c stop = some problem := by
  cases stop with
  | exhausted => exact absurd rfl h
  | fault f => exact ⟨_, rfl⟩
  | failure failure => exact ⟨_, rfl⟩

theorem isSome_run? (h : ∀ s, session.evaluator.commands (session.start source) ≠
    .error .exhausted s) : (session.run? source).isSome = true := by
  unfold run?
  split
  . rfl
  . next stop s hstop =>
    have hne : stop ≠ .exhausted := by
      rintro rfl
      exact h s hstop
    obtain ⟨problem, hproblem⟩ := exists_problem s.cursor hne
    rw [hproblem]
    rfl

theorem exists_level_run? (session : Session) (sources : List Text) :
    ∃ level, ∀ m, level ≤ m → ∀ source ∈ sources,
      ((session.standard m).run? source).isSome = true := by
  induction sources with
  | nil => exact ⟨0, fun _ _ => by simp⟩
  | cons source sources ih =>
    obtain ⟨level, hlevel⟩ := ih
    obtain ⟨level', result, hresult, hne⟩ := settles_start session source
    refine ⟨max level level', ?_⟩
    intro m hm other hother
    cases List.mem_cons.mp hother with
    | inl heq =>
      subst heq
      apply isSome_run?
      intro s hs
      exact hne s ((hresult m (by omega)).symm.trans hs)
    | inr hmem => exact hlevel m (by omega) other hmem

theorem runAll?_of_fresh (session : Session) (hregistry : session.registry.Appends)
    (sources : List Text)
    (h : ∀ source ∈ sources, (session.fresh.run? source).isSome = true) :
    ∃ reports last, session.runAll? sources = some (reports, last) ∧
      reports.length = sources.length ∧
      ∀ k source report, sources[k]? = some source → reports[k]? = some report →
        ∃ earlier before next alone, session.runAll? (sources.take k) = some (earlier, before) ∧
          before.run? source = some (report, next) ∧
          session.fresh.run? source = some (report, alone) ∧
          before.newEvents next.log = session.fresh.newEvents alone.log := by
  -- a run changes nothing but the log, so the sessions before all runs have one fresh session
  induction sources generalizing session with
  | nil => exact ⟨[], session, rfl, rfl, fun k source report hsource => by simp at hsource⟩
  | cons source sources ih =>
    obtain ⟨⟨report, alone⟩, halone⟩ := Option.isSome_iff_exists.mp (h source List.mem_cons_self)
    obtain ⟨next, hrun, hfresh, hevents⟩ := run?_of_fresh hregistry halone
    have hnext : next.fresh.registry.Appends := hfresh ▸ hregistry
    obtain ⟨reports, last, hall, hlength, hreports⟩ :=
      ih next hnext fun other hother => hfresh ▸ h other (List.mem_cons_of_mem source hother)
    refine ⟨report :: reports, last, ?_, congrArg Nat.succ hlength, ?_⟩
    . unfold runAll?
      simp only [hrun, hall, Option.bind_eq_bind, Option.bind_some, Option.pure_def]
    . intro k other report' hsource hreport
      cases k with
      | zero =>
        cases hsource
        cases hreport
        exact ⟨[], session, next, alone, rfl, hrun, halone, hevents⟩
      | succ k =>
        rw [List.getElem?_cons_succ] at hsource hreport
        obtain ⟨earlier, before, next', alone', hbefore, hrun', halone', hevents'⟩ :=
          hreports k other report' hsource hreport
        rw [hfresh] at halone' hevents'
        refine ⟨report :: earlier, before, next', alone', ?_, hrun', halone', hevents'⟩
        rw [List.take_succ_cons]
        unfold runAll?
        simp only [hrun, hbefore, Option.bind_eq_bind, Option.bind_some, Option.pure_def]

end LineScript.Session
