import LineScript.Proofs.Events
import LineScript.Proofs.Invoke
import LineScript.Shell
import Mathlib.Data.List.Basic

/-!
This module contains the proof that a file and the prompt agree. Lines that are run from a file and
lines that are typed at the prompt go different ways: a file is cut into lines by other characters,
blank lines of a file are left out, and a file has no line that ends the shell. For lines on which
these rules agree, both ways run the same lines up to the first problem, write the same, and end in
the same way.
-/

namespace LineScript

namespace Text

variable {line rest : Text}

theorem normalizeNewlines_of_not_mem {t : Text} (h : '\r' ∉ t) : normalizeNewlines t = t := by
  fun_induction normalizeNewlines t with
  | case1 => rfl
  | case2 rest ih => simp at h
  | case3 c rest hne ih =>
    rw [List.mem_cons, not_or] at h
    rw [if_neg (Ne.symm h.1), ih h.2]

theorem lines.go_append (hline : ∀ c ∈ line, isLineBoundary c = false) (start rest : Text) :
    go start (line ++ rest) = go (line.reverse ++ start) rest := by
  induction line generalizing start with
  | nil => rfl
  | cons c line ih =>
    have hc : isLineBoundary c = false := hline c List.mem_cons_self
    have hreturn : c ≠ '\r' := by
      rintro rfl
      cases hc
    have ih := ih fun c' hc' => hline c' (List.mem_cons_of_mem c hc')
    rw [List.cons_append, go, if_neg (by simp [hc]), ih]
    . simp
    . rintro rest rfl
      exact absurd rfl hreturn

theorem lines_append_newline (hline : ∀ c ∈ line, isLineBoundary c = false) (rest : Text) :
    lines (line ++ '\n' :: rest) = line :: lines rest := by
  unfold lines
  rw [lines.go_append hline]
  simp [lines.go, isLineBoundary]

theorem lines_of_not_boundary (hline : ∀ c ∈ line, isLineBoundary c = false) :
    lines line = if line = [] then [] else [line] := by
  have hgo := lines.go_append hline [] []
  rw [List.append_nil, List.append_nil] at hgo
  unfold lines
  rw [hgo]
  simp [lines.go]

theorem inputLines.go_append (hline : line.OneLine) (start rest : Text) :
    go start (line ++ rest) = go (line.reverse ++ start) rest := by
  induction line generalizing start with
  | nil => rfl
  | cons c line ih =>
    rw [oneLine_cons] at hline
    rw [List.cons_append, go, if_neg hline.1, ih hline.2]
    simp

theorem inputLines_flatMap {lines : List Text} (hlines : ∀ line ∈ lines, line.OneLine) :
    inputLines (lines.flatMap (· ++ ['\n'])) = lines.map (· ++ ['\n']) := by
  induction lines with
  | nil => rfl
  | cons line lines ih =>
    rw [List.forall_mem_cons] at hlines
    have ih := ih hlines.2
    unfold inputLines at ih ⊢
    rw [List.flatMap_cons, List.append_assoc, inputLines.go_append hlines.1]
    simp [inputLines.go, ih]

theorem dropTail_append_newline (hline : line.OneLine) :
    dropTail (· = '\n') (line ++ ['\n']) = line := by
  have hkeep : line.reverse.dropWhile (· = '\n') = line.reverse := by
    have hreverse : OneLine line.reverse := hline.of_subset (List.reverse_subset.mpr fun _ => id)
    cases hcons : line.reverse with
    | nil => rfl
    | cons c t =>
      rw [hcons, oneLine_cons] at hreverse
      exact List.dropWhile_cons_of_neg (by simpa using hreverse.1)
  unfold dropTail
  simp [hkeep]

end Text

open Eval Read

theorem reads_findCommand_spaces (registry : Registry Command) {reader : Eval Value}
    (hreader : Verbatim reader (· != '$')) {line : Text} (hline : ∀ c ∈ line, c = ' ') :
    Reads (findCommand registry reader) line none [] := by
  have hspaces : Reads spaces line () [] := by
    have h := reads_spaces line
    rw [List.eq_replicate_of_mem hline, Text.dropSpaces_spaces] at h
    rw [List.eq_replicate_of_mem hline]
    exact h
  have hstring : Reads (Read.string reader {}) [] [] [] :=
    reads_argument_string (A := []) hreader nofun .nil
  unfold findCommand
  apply Reads.bind hspaces
  apply reads_index_bind
  intro start
  apply Reads.bind hstring
  exact reads_pure none []

namespace Session

theorem run?_spaces {session : Session} {line : Text} (hline : ∀ c ∈ line, c = ' ')
    (hlevel : session.level ≠ 0) : session.run? line = some (.success [], session) := by
  obtain ⟨level, hlevel⟩ := Nat.exists_eq_succ_of_ne_zero hlevel
  have hcommand : Reads (Evaluator.ofLevel session.registry (level + 1)).command line .finish [] :=
    Reads.bind (reads_findCommand_spaces _ (verbatim_unit _) hline) (reads_pure Value.finish [])
  have hcommands : Reads (Evaluator.ofLevel session.registry (level + 1)).commands line () [] := by
    apply hcommand.bind
      (f := fun v => unless v.isFinish do (Evaluator.ofLevel session.registry level).commands)
    exact reads_pure () []
  obtain ⟨used, -, hx⟩ := hcommands
  have hok : session.evaluator.commands (session.start line) =
      .ok () ((session.start line).advance used.length) := by
    unfold Session.evaluator
    rw [hlevel]
    exact hx _ (Cursor.spawn_inText { buffer := [] } line) rfl
  rw [run?_of_ok hok]
  simp [newEvents, start, Log.effects]

end Session

namespace Shell

/--
What a line writes if it is run by itself.
-/
def written (session : Session) (line : Text) : List Output :=
  ((runLine? session line).map (·.1)).getD []

/--
The lines that are run, up to the first problem, and how the shell ends after them.
-/
def course (session : Session) : List Text → List Text × Ending
  | [] => ([], .exit 0)
  | line :: lines =>
    match runLine? session line with
    | none => ([line], .exhausted)
    | some (_, false, _) => ([line], .exit 1)
    | some (_, true, _) => (line :: (course session lines).1, (course session lines).2)

/--
What the shell writes when it ends at its prompt: if there was no problem, the input has ended.
-/
def farewell (config : Config) (ending : Ending) : List Output :=
  if ending = .exit 0 then prompt config ++ [.out ['\n']] else []

section Agreement

variable {config : Config} {session : Session} {line : Text} {lines : List Text} {report : Report}
  {next : Session}

/--
What was run before a line makes no difference to what the line writes.
-/
theorem runLine?_cases (hregistry : session.registry.Appends) (line : Text) :
    runLine? session.fresh line = none ∧ runLine? session line = none ∨
      ∃ success alone next,
        runLine? session.fresh line = some (written session.fresh line, success, alone) ∧
        runLine? session line = some (written session.fresh line, success, next) ∧
        next.fresh = session.fresh := by
  cases halone : session.fresh.run? line with
  | none =>
    have hrun := Session.run?_eq_fresh hregistry line
    rw [halone] at hrun
    left
    simp [runLine?, halone, hrun]
  | some run =>
    obtain ⟨report, alone⟩ := run
    obtain ⟨next, hrun, hfresh, hevents⟩ := Session.run?_of_fresh hregistry halone
    right
    refine ⟨report.isSuccess, alone, next, ?_, ?_, hfresh⟩
    . simp [written, runLine?, halone]
    . simp [written, runLine?, halone, hrun, hevents]

theorem runLines_eq (hregistry : session.registry.Appends)
    (hblank : ∀ line ∈ lines, Text.isBlankLine line = true →
      runLine? session.fresh line = some ([], true, session.fresh)) :
    runLines session lines = ⟨(course session.fresh lines).1.flatMap (written session.fresh),
      (course session.fresh lines).2⟩ := by
  induction lines generalizing session with
  | nil => rfl
  | cons line lines ih =>
    rw [List.forall_mem_cons] at hblank
    unfold runLines course
    split
    . next hline =>
      have hwritten : written session.fresh line = [] := by simp [written, hblank.1 hline]
      simp only [hblank.1 hline, ih hregistry hblank.2, List.flatMap_cons, hwritten, List.nil_append]
    . obtain ⟨halone, hrun⟩ | ⟨success, alone, next, halone, hrun, hfresh⟩ :=
        runLine?_cases hregistry line
      . simp [halone, hrun, written]
      . have hnext : next.fresh.registry.Appends := hfresh ▸ hregistry
        cases success with
        | false => simp [halone, hrun]
        | true =>
          have ih := @ih next hnext (hfresh ▸ hblank.2)
          simp [halone, hrun, Outcome.after, ih, hfresh]

theorem interact_eq (hexit : config.exitOnError.truthy = true) (hregistry : session.registry.Appends)
    (hlines : ∀ line ∈ lines, line.OneLine ∧ Text.trim line ≠ "exit".toList) :
    interact config session (lines.map (fun line => .line (line ++ ['\n'])) ++ [.endOfInput]) =
      ⟨(course session.fresh lines).1.flatMap (prompt config ++ written session.fresh ·) ++
        farewell config (course session.fresh lines).2, (course session.fresh lines).2⟩ := by
  induction lines generalizing session with
  | nil => rfl
  | cons line lines ih =>
    rw [List.forall_mem_cons] at hlines
    obtain ⟨⟨hline, hword⟩, hlines⟩ := hlines
    unfold interact course respond
    simp only [List.map_cons, List.cons_append, Text.dropTail_append_newline hline, hword, ↓reduceIte]
    obtain ⟨halone, hrun⟩ | ⟨success, alone, next, halone, hrun, hfresh⟩ :=
      runLine?_cases hregistry line
    . simp [halone, hrun, written, farewell]
    . have hnext : next.fresh.registry.Appends := hfresh ▸ hregistry
      cases success with
      | false => simp [halone, hrun, hexit, farewell]
      | true =>
        have ih := @ih next hnext hlines
        simp [halone, hrun, Outcome.after, ih, hfresh]

/--
The outcome of a file with the given lines.
-/
def fileOutcome (session : Session) (lines : List Text) : Outcome :=
  runLines session (Text.lines (Text.normalizeNewlines (Text.join ['\n'] lines)))

/--
The outcome at the prompt for someone who types the given lines and then ends the input.
-/
def promptOutcome (config : Config) (session : Session) (lines : List Text) : Outcome :=
  interact config session (inputs (lines.flatMap (· ++ ['\n'])) false)

/-- These are the outcomes of the program. -/
example (config : Config) (argument : Text) (lines : List Text) :
    runFile config argument (.file (some (Text.join ['\n'] lines))) =
      fileOutcome (Shell.session config) lines := rfl

/--
A line for which a file and the prompt have the same rules: the cut of a file goes around it, it does
not end the shell, and if it is left out of a file there is nothing to run on it.
-/
structure Portable (line : Text) : Prop where
  not_boundary : ∀ c ∈ line, Text.isLineBoundary c = false
  not_exit : Text.trim line ≠ "exit".toList
  spaces : Text.isBlankLine line = true → ∀ c ∈ line, c = ' '

theorem portable_iff (line : Text) : Portable line ↔
    line.all (!Text.isLineBoundary ·) = true ∧ Text.trim line ≠ "exit".toList ∧
      (Text.isBlankLine line = true → line.all (· = ' ') = true) := by
  simp only [List.all_eq_true, Bool.not_eq_true', decide_eq_true_eq]
  exact ⟨fun h => ⟨h.not_boundary, h.not_exit, h.spaces⟩, fun ⟨h, h', h''⟩ => ⟨h, h', h''⟩⟩

instance (line : Text) : Decidable (Portable line) := decidable_of_iff' _ (portable_iff line)

theorem Portable.oneLine (h : Portable line) : line.OneLine := by
  intro hmem
  cases h.not_boundary _ hmem

theorem runLines_join (hlines : ∀ line ∈ lines, Portable line) :
    runLines session (Text.lines (Text.join ['\n'] lines)) = runLines session lines := by
  induction lines generalizing session with
  | nil => rfl
  | cons line lines ih =>
    rw [List.forall_mem_cons] at hlines
    cases lines with
    | nil =>
      have hjoin : Text.join ['\n'] [line] = line := by simp [Text.join]
      rw [hjoin, Text.lines_of_not_boundary hlines.1.not_boundary]
      split
      . next hnil =>
        -- an empty last line is not a line of the file, and it is left out of the lines that are run
        subst hnil
        rfl
      . rfl
    | cons next lines =>
      have hjoin : Text.join ['\n'] (line :: next :: lines) =
          line ++ '\n' :: Text.join ['\n'] (next :: lines) := by simp [Text.join]
      rw [hjoin, Text.lines_append_newline hlines.1.not_boundary]
      unfold runLines
      simp only [ih hlines.2]

theorem fileOutcome_eq (hregistry : session.registry.Appends) (hlevel : session.level ≠ 0)
    (hlines : ∀ line ∈ lines, Portable line) :
    fileOutcome session lines = ⟨(course session.fresh lines).1.flatMap (written session.fresh),
      (course session.fresh lines).2⟩ := by
  have hreturn : '\r' ∉ Text.join ['\n'] lines := by
    intro hmem
    obtain hmem | ⟨line, hline, hmem⟩ := Text.mem_join hmem
    . revert hmem
      decide
    . cases (hlines line hline).not_boundary _ hmem
  unfold fileOutcome
  rw [Text.normalizeNewlines_of_not_mem hreturn, runLines_join hlines]
  apply runLines_eq hregistry
  intro line hline hblank
  have hrun := @Session.run?_spaces session.fresh line ((hlines line hline).spaces hblank) hlevel
  simp [runLine?, hrun, Session.newEvents, Report.success, Report.isSuccess]

theorem promptOutcome_eq (hexit : config.exitOnError.truthy = true)
    (hregistry : session.registry.Appends) (hlines : ∀ line ∈ lines, Portable line) :
    promptOutcome config session lines =
      ⟨(course session.fresh lines).1.flatMap (prompt config ++ written session.fresh ·) ++
        farewell config (course session.fresh lines).2, (course session.fresh lines).2⟩ := by
  unfold promptOutcome inputs
  rw [Text.inputLines_flatMap fun line hline => (hlines line hline).oneLine, List.map_map]
  apply interact_eq hexit hregistry
  intro line hline
  exact ⟨(hlines line hline).oneLine, (hlines line hline).not_exit⟩

/--
A problem is reported on the line if it is run by itself.
-/
def Fails (session : Session) (line : Text) : Prop :=
  ∃ report next, session.run? line = some (report, next) ∧ report.isSuccess = false

theorem course_prefix (session : Session) (lines : List Text) : (course session lines).1 <+: lines := by
  induction lines with
  | nil => exact List.prefix_refl []
  | cons line lines ih =>
    unfold course
    split
    . exact ⟨lines, rfl⟩
    . exact ⟨lines, rfl⟩
    . exact (List.prefix_cons_inj line).mpr ih

theorem runLine?_of_run? (h : session.run? line = some (report, next)) :
    runLine? session line = some ((session.newEvents next.log).toList.map ofEvent ++
      (if report.isSuccess then [] else [errLine report.format]), report.isSuccess, next) := by
  unfold runLine?
  rw [h]
  rfl

theorem isSuccess_of_not_fails (h : ¬ Fails session line)
    (hrun : session.run? line = some (report, next)) : report.isSuccess = true := by
  rw [← Bool.not_eq_false]
  intro hfailure
  exact h ⟨report, next, hrun, hfailure⟩

theorem course_append_of_success {before : List Text}
    (hsome : ∀ line ∈ before, (session.run? line).isSome = true)
    (h : ∀ line ∈ before, ¬ Fails session line) (after : List Text) :
    course session (before ++ after) = (before ++ (course session after).1, (course session after).2) := by
  induction before with
  | nil => rfl
  | cons line before ih =>
    rw [List.forall_mem_cons] at hsome h
    obtain ⟨⟨report, next⟩, hrun⟩ := Option.isSome_iff_exists.mp hsome.1
    have hline := runLine?_of_run? hrun
    rw [isSuccess_of_not_fails h.1 hrun] at hline
    simp [course, hline, ih hsome.2 h.2]

theorem course_of_success (hsome : ∀ line ∈ lines, (session.run? line).isSome = true)
    (h : ∀ line ∈ lines, ¬ Fails session line) : course session lines = (lines, .exit 0) := by
  have hcourse := course_append_of_success hsome h []
  rw [List.append_nil] at hcourse
  rw [hcourse]
  simp [course]

theorem course_of_failure {before : List Text} (after : List Text)
    (hsome : ∀ line ∈ before, (session.run? line).isSome = true)
    (h : ∀ line ∈ before, ¬ Fails session line) (hline : Fails session line) :
    course session (before ++ line :: after) = (before ++ [line], .exit 1) := by
  obtain ⟨report, next, hrun, hfailure⟩ := hline
  rw [course_append_of_success hsome h]
  simp [course, runLine?_of_run? hrun, hfailure]

theorem exists_first_failure (h : ∃ line ∈ lines, Fails session line) :
    ∃ before line after, lines = before ++ line :: after ∧ Fails session line ∧
      ∀ earlier ∈ before, ¬ Fails session earlier := by
  classical
  obtain ⟨line, hmem, hline⟩ := h
  have hfind : (lines.find? (Fails session ·)).isSome = true := by
    rw [List.find?_isSome]
    exact ⟨line, hmem, by simpa using hline⟩
  obtain ⟨first, hfirst⟩ := Option.isSome_iff_exists.mp hfind
  obtain ⟨hfails, before, after, hlines, hbefore⟩ := List.find?_eq_some_iff_append.mp hfirst
  refine ⟨before, first, after, hlines, by simpa using hfails, ?_⟩
  intro earlier hearlier
  simpa using hbefore earlier hearlier

theorem ending_course_eq_one_iff (hsome : ∀ line ∈ lines, (session.run? line).isSome = true) :
    (course session lines).2 = .exit 1 ↔ ∃ line ∈ lines, Fails session line := by
  constructor
  . intro hone
    by_contra hnone
    rw [course_of_success hsome fun line hmem hline => hnone ⟨line, hmem, hline⟩] at hone
    cases hone
  . intro hexists
    obtain ⟨before, line, after, rfl, hline, hbefore⟩ := exists_first_failure hexists
    rw [List.forall_mem_append] at hsome
    rw [course_of_failure after hsome.1 hbefore hline]

/--
No event of a run is taken for words on several lines.
-/
theorem errLine_not_mem_events (hregistry : session.registry = Standard.registry)
    (hrun : session.run? line = some (report, next)) {t : Text} (ht : ¬ t.OneLine) :
    errLine t ∉ (session.newEvents next.log).toList.map ofEvent := by
  intro hmem
  obtain ⟨event, hevent, heq⟩ := List.mem_map.mp hmem
  have hevent := Session.regular_newEvents hregistry hrun event (Array.mem_toList_iff.mp hevent)
  match event with
  | .pause seconds => cases heq
  | .effect ⟨.stdout, message⟩ => cases heq
  | .effect ⟨.channel name, message⟩ => cases heq
  | .effect ⟨.stderr, message⟩ =>
    obtain rfl : message = t := by simpa [ofEvent, errLine] using heq
    obtain htopic | ⟨-, hwarning⟩ := hevent
    . cases htopic
    . have hwarnings : ∀ warning ∈ Standard.emptyLoopWarnings, Text.OneLine warning := by decide
      exact ht (hwarnings message hwarning)
  | .trace text =>
    obtain ⟨line, last, hline, rfl⟩ := hevent
    have happend : line ++ [last] = t ++ ['\n'] := by simpa [ofEvent, errLine] using heq
    exact ht (List.append_inj_left' happend rfl ▸ hline)

theorem written_of_run? (h : session.run? line = some (report, next)) :
    written session line = (session.newEvents next.log).toList.map ofEvent ++
      if report.isSuccess then [] else [errLine report.format] := by
  unfold written
  rw [runLine?_of_run? h]
  rfl

theorem errLine_not_mem_written (hregistry : session.registry = Standard.registry) {t : Text}
    (ht : ¬ t.OneLine) (h : ¬ Fails session line) : errLine t ∉ written session line := by
  cases hrun : session.run? line with
  | none => simp [written, runLine?, hrun]
  | some run =>
    rw [written_of_run? hrun, if_pos (isSuccess_of_not_fails h hrun), List.append_nil]
    exact errLine_not_mem_events hregistry hrun ht

/--
The words for the first problem are written once, whatever is written before each line.
-/
theorem count_errLine_eq_one (hregistry : session.registry = Standard.registry) {before : List Text}
    (hbefore : ∀ earlier ∈ before, ¬ Fails session earlier)
    (hrun : session.run? line = some (report, next)) (hfailure : report.isSuccess = false)
    (lead : List Output) (hlead : errLine report.format ∉ lead) :
    ((before ++ [line]).flatMap (lead ++ written session ·)).count (errLine report.format) = 1 := by
  have hformat := Session.not_oneLine_format hrun hfailure
  have hearlier : errLine report.format ∉ before.flatMap (lead ++ written session ·) := by
    intro hmem
    obtain ⟨earlier, hearlier, hmem⟩ := List.mem_flatMap.mp hmem
    cases List.mem_append.mp hmem with
    | inl h => exact hlead h
    | inr h => exact errLine_not_mem_written hregistry hformat (hbefore earlier hearlier) h
  have hevents := errLine_not_mem_events hregistry hrun hformat
  rw [List.flatMap_append, List.flatMap_singleton, written_of_run? hrun, hfailure]
  simp only [List.count_append, List.count_eq_zero.mpr hearlier, List.count_eq_zero.mpr hlead,
    List.count_eq_zero.mpr hevents]
  simp

/--
What the lines write, at the prompt and from a file. `ran` are the lines that are run.
-/
structure Agrees (config : Config) (session : Session) (ran : List Text) (file shell : Outcome) :
    Prop where
  /-- From a file comes what the lines write. -/
  file_outputs : file.outputs = ran.flatMap (written session)
  /-- At the prompt the same comes, with a prompt before each line and one at the end of the input. -/
  shell_outputs : shell.outputs =
    ran.flatMap (prompt config ++ written session ·) ++ farewell config file.ending
  stderr : shell.stderr = file.stderr
  waits : shell.waits = file.waits
  ending : shell.ending = file.ending

/--
How it ends, if no line goes too deep.
-/
structure Ends (session : Session) (lines ran : List Text) (file shell : Outcome) : Prop where
  exit_one_iff : file.ending = .exit 1 ↔ ∃ line ∈ lines, Fails session line
  /-- Without a problem, all lines are run. -/
  success : (∀ line ∈ lines, ¬ Fails session line) → ran = lines ∧ file.ending = .exit 0
  /-- The first problem is reported once, and no later line is run. -/
  failure : ∀ before line after report next, lines = before ++ line :: after →
    (∀ earlier ∈ before, ¬ Fails session earlier) → session.run? line = some (report, next) →
    report.isSuccess = false →
      ran = before ++ [line] ∧ file.outputs.count (errLine report.format) = 1 ∧
        shell.outputs.count (errLine report.format) = 1

theorem flatMap_prompt {α : Type} {f : Output → List α} (hf : ∀ t, f (.out t) = []) (config : Config)
    (w : Text → List Output) (ran : List Text) (ending : Ending) :
    (ran.flatMap (prompt config ++ w ·) ++ farewell config ending).flatMap f =
      (ran.flatMap w).flatMap f := by
  have hfarewell : (farewell config ending).flatMap f = [] := by
    unfold farewell
    split
    . simp [prompt, hf]
    . rfl
  rw [List.flatMap_append, hfarewell, List.append_nil]
  induction ran with
  | nil => rfl
  | cons line ran ih =>
    rw [List.flatMap_cons, List.flatMap_append, ih]
    simp [prompt, hf]

theorem agrees_of_portable (hexit : config.exitOnError.truthy = true)
    (hregistry : session.registry.Appends) (hlevel : session.level ≠ 0)
    (hlines : ∀ line ∈ lines, Portable line) :
    Agrees config session.fresh (course session.fresh lines).1 (fileOutcome session lines)
      (promptOutcome config session lines) := by
  rw [fileOutcome_eq hregistry hlevel hlines, promptOutcome_eq hexit hregistry hlines]
  refine ⟨rfl, rfl, ?_, ?_, rfl⟩
  . exact flatMap_prompt (fun _ => rfl) config _ _ _
  . unfold Outcome.waits
    simp only [List.filterMap_eq_flatMap_toList]
    exact flatMap_prompt (fun _ => rfl) config _ _ _

theorem ends_of_agrees {file shell : Outcome} (hregistry : session.registry = Standard.registry)
    (hsome : ∀ line ∈ lines, (session.run? line).isSome = true)
    (hagrees : Agrees config session (course session lines).1 file shell)
    (hending : file.ending = (course session lines).2) :
    Ends session lines (course session lines).1 file shell := by
  refine ⟨?_, ?_, ?_⟩
  . rw [hending]
    exact ending_course_eq_one_iff hsome
  . intro h
    rw [hending, course_of_success hsome h]
    exact ⟨rfl, rfl⟩
  . rintro before line after report next rfl hbefore hrun hfailure
    rw [List.forall_mem_append] at hsome
    have hcourse := course_of_failure after hsome.1 hbefore ⟨report, next, hrun, hfailure⟩
    have hfarewell : farewell config (.exit 1) = [] := rfl
    have hprompt : errLine report.format ∉ prompt config := by simp [prompt, errLine]
    rw [hagrees.file_outputs, hagrees.shell_outputs, hending, hcourse, hfarewell, List.append_nil]
    refine ⟨rfl, ?_, ?_⟩
    . exact count_errLine_eq_one hregistry hbefore hrun hfailure [] List.not_mem_nil
    . exact count_errLine_eq_one hregistry hbefore hrun hfailure (prompt config) hprompt

end Agreement

end Shell

end LineScript
