import LineScript.Proofs.Standard
import LineScript.Session

/-!
This module contains the proof that every problem that a run of the standard commands reports points
into the text that it names. If the problem is an unknown variable, the reference to that variable is
what it points at.
-/

namespace LineScript

open Eval Cursor

namespace Text

theorem asciiChar_of_isNameChar {c : Char} (h : isNameChar c = true) : asciiChar c = [c] := by
  have hrange : 0x30 ≤ c.toNat ∧ c.toNat ≤ 0x7a ∧ c.toNat ≠ 0x5c := by
    simp only [isNameChar, isDigit, Bool.or_eq_true, Bool.and_eq_true, decide_eq_true_eq,
      Char.le_def, UInt32.le_iff_toNat_le] at h
    have : c.toNat = c.val.toNat := rfl
    simp at h
    omega
  have hquote : c ≠ '"' := by
    rintro rfl
    simp at hrange
  have hbackslash : c ≠ '\\' := by
    rintro rfl
    simp at hrange
  have hnewline : c ≠ '\n' ∧ c ≠ '\r' ∧ c ≠ '\t' := by
    refine ⟨?_, ?_, ?_⟩
    all_goals
      rintro rfl
      simp at hrange
  unfold asciiChar
  grind

theorem flatMap_self {f : Char → Text} {t : Text} (h : ∀ c ∈ t, f c = [c]) : t.flatMap f = t := by
  induction t with
  | nil => rfl
  | cons c t ih =>
    rw [List.flatMap_cons, h c List.mem_cons_self, ih fun d hd => h d (List.mem_cons_of_mem c hd)]
    rfl

theorem ascii_of_isNameChar {name : Text} (h : ∀ c ∈ name, isNameChar c = true) :
    ascii name = '"' :: name ++ ['"'] := by
  unfold ascii
  rw [flatMap_self fun c hc => asciiChar_of_isNameChar (h c hc)]

theorem asciiChar_cases (c : Char) : asciiChar c = [c] ∨ '\\' ∈ asciiChar c := by
  unfold asciiChar
  grind [unitEscape]

theorem eq_of_ascii_eq {name name' : Text} (h : ∀ c ∈ name, isNameChar c = true)
    (heq : ascii name' = ascii name) : name' = name := by
  have hflat : name'.flatMap asciiChar = name := by
    rw [ascii_of_isNameChar h] at heq
    simpa [ascii] using heq
  have hself : ∀ c ∈ name', asciiChar c = [c] := by
    intro c hc
    cases asciiChar_cases c with
    | inl hself => exact hself
    | inr hescape =>
      -- an escape would bring a backslash into the name
      have hmem : '\\' ∈ name := by
        rw [← hflat]
        exact List.mem_flatMap.mpr ⟨c, hc, hescape⟩
      have := h _ hmem
      contradiction
  rw [← hflat, flatMap_self hself]

end Text

theorem Kind.eq_of_take_label {kind : Kind} (h : kind.label.take 8 = "UnknownV".toList) :
    kind = .unknownVariable := by
  cases kind with
  | unknownVariable => rfl
  | general => exact absurd h (by decide)
  | unknownCommand => exact absurd h (by decide)
  | malformedArgument => exact absurd h (by decide)
  | inconsistentIteration iteration delta =>
    have h : "Inconsis".toList = "UnknownV".toList := h
    exact absurd h (by decide)

theorem Fault.take_text (f : Fault) : f.text.take 8 = f.kind.label.take 8 := by
  unfold text
  cases f.kind <;> rfl

theorem Fault.kind_of_text_eq {f : Fault} {name : Text}
    (h : f.text = ({ cause := .unknownVariable name } : Fault).text) :
    f.kind = .unknownVariable := by
  apply Kind.eq_of_take_label
  rw [← take_text, h]
  rfl

theorem Fault.ascii_eq_of_text_eq {f : Fault} {name name' : Text}
    (hcause : f.cause = .unknownVariable name')
    (h : f.text = ({ cause := .unknownVariable name } : Fault).text) :
    Text.ascii name' = Text.ascii name := by
  have hmessage : ∀ name, Cause.message (.unknownVariable name) =
      "Unknown variable ".toList ++ Text.ascii name := fun _ => rfl
  have hkind : (Cause.unknownVariable name').kind = (Cause.unknownVariable name).kind := rfl
  unfold text kind message at h
  rw [hcause, hmessage, hmessage, hkind] at h
  exact List.append_cancel_left (List.append_cancel_left h)

namespace Session

theorem problem?_placed {c : Cursor} (hc : c.InText) {stop : Stop} (hstop : stop.Placed)
    {problem : Problem} (hproblem : problem? c stop = some problem) :
    ∃ (buffer : Text) (index : Nat), problem.buffer = some buffer ∧
      problem.index = some (index : Int) ∧ index ≤ buffer.length ∧
      ∀ name, problem.message = ({ cause := .unknownVariable name } : Fault).text →
        buffer.NameAt index name := by
  cases stop with
  | exhausted => cases hproblem
  | failure failure =>
    have h0 := hc.nonneg
    have h1 := hc.le_length
    cases hproblem
    refine ⟨c.buffer, c.index.toNat, rfl, ?_, by omega, ?_⟩
    . simp only [Option.some.injEq]
      omega
    . -- the label of a failure is none of the labels of faults
      intro name hname
      have htake := congrArg (List.take 8) hname
      have htake : "Internal".toList = "UnknownV".toList := htake
      exact absurd htake (by decide)
  | fault f =>
    have hlocate := Fault.Placed.locate_eq hstop c.buffer c.index
    obtain ⟨buffer, index, hbuffer, hindex, hle, hname⟩ := hstop
    simp only [problem?, hlocate, Option.some.injEq] at hproblem
    subst hproblem
    refine ⟨buffer, index, hbuffer, hindex, hle, ?_⟩
    intro name htext
    -- the message tells the kind and the name, so it is the name that the fault was placed for
    obtain ⟨name', hcause, hat⟩ := hname (Fault.kind_of_text_eq htext)
    have hchars : ∀ c ∈ name', Text.isNameChar c = true := by
      obtain ⟨_, _, _, _, hchars, _⟩ := hat
      exact hchars
    rw [Text.eq_of_ascii_eq hchars (Fault.ascii_eq_of_text_eq hcause htext).symm]
    exact hat

/--
Every problem that a run reports has a text and a place in it. If a variable is unknown, there is a
dollar sign before that place and its name at it, not followed by another letter or digit.
-/
theorem problem_points_into_text (session : Session)
    (hregistry : session.registry = Standard.registry) (source : Text) (report : Report)
    (next : Session) (hrun : session.run? source = some (report, next)) (problem : Problem)
    (hproblem : report.problem = some problem) :
    ∃ (buffer : Text) (index : Nat), problem.buffer = some buffer ∧
      problem.index = some (index : Int) ∧ index ≤ buffer.length ∧
      ∀ name, problem.message = ({ cause := .unknownVariable name } : Fault).text →
        buffer.NameAt index name := by
  have hin : (session.start source).cursor.InText := spawn_inText { buffer := [] } source
  have htakes := (Standard.sound_ofLevel session.level).commands (session.start source) hin
  rw [← hregistry] at htakes
  unfold run? at hrun
  split at hrun
  . cases hrun
    cases hproblem
  . next stop s hstop =>
    obtain ⟨⟨used, htook⟩, hplaced⟩ := Yields.of_error htakes hstop
    obtain ⟨found, hfound, heq⟩ := Option.map_eq_some_iff.mp hrun
    cases heq
    cases hproblem
    exact problem?_placed (htook.inText hin) hplaced hfound

theorem problem_points_into_text_say_variable :
    ∃ report next problem, run? { level := 2 } "say $x".toList = some (report, next) ∧
      report.problem = some problem ∧ problem.index = some 5 ∧
      Text.NameAt "say $x".toList 5 ['x'] := by
  have hbind : (run? { level := 2 } "say $x".toList).bind (·.1.problem) =
      some ⟨({ cause := .unknownVariable ['x'] } : Fault).text, some 5, some "say $x".toList⟩ := by
    decide +kernel
  obtain ⟨⟨report, next⟩, hrun, hproblem⟩ := Option.bind_eq_some_iff.mp hbind
  refine ⟨report, next, _, hrun, hproblem, rfl, ?_⟩
  obtain ⟨buffer, index, hbuffer, hindex, -, hname⟩ :=
    problem_points_into_text _ rfl _ report next hrun _ hproblem
  cases hbuffer
  have hfive : index = 5 := by
    have : (5 : Int) = index := Option.some.inj hindex
    omega
  exact hfive ▸ hname ['x'] rfl

end Session

end LineScript
