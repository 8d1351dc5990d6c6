import LineScript.Proofs.Printing
import LineScript.Proofs.Standard

/-!
This module contains properties of computations that pass from the parts of a computation to the
whole. All reads, loops and standard commands are put together from a few operations on the state, so
a property of this kind holds of each of them as soon as it holds of the operations. What is read and
run on the way belongs to an evaluator; of that, each lemma here asks for what it needs.
-/

namespace LineScript

/--
The events that standard commands leave: messages for the standard output, the warnings about a loop
that has nothing to run over, and waits.
-/
def Event.Standard : Event → Prop
  | .effect e => e.topic = .stdout ∨ e.topic = .stderr ∧ e.message ∈ Standard.emptyLoopWarnings
  | .pause _ => True
  | .trace _ => False

namespace Read

open Eval

variable {σ : Type} {reader : Eval Value} {judge : σ → Text → Verdict σ}

/--
What the verdict makes of a string or number satisfies `I`.
-/
def Verdict.Satisfies (I : σ → Prop) : Verdict σ → Prop
  | .next d | .keep d | .giveBack d => I d
  | .refuse _ => True

theorem scan.yields_go {I : σ → Prop} (hjudge : ∀ d t, I d → (judge d t).Satisfies I) (budget : Nat)
    {d : σ} {s : State} (hd : I d) :
    Yields (go reader judge budget d) s (fun d' _ => I d') fun _ _ => True := by
  induction budget generalizing d s with
  | zero => exact trivial
  | succ budget ih =>
    unfold go
    simp only [yields_bind, yields_index]
    refine yields_of_forall ?_ fun _ _ => trivial
    intro v s₁
    split
    . exact hd
    . rw [yields_bind]
      refine yields_of_forall ?_ fun _ _ => trivial
      intro t s₂
      have hverdict := hjudge d t hd
      split
      . next hnext =>
        rw [hnext] at hverdict
        exact ih hverdict
      . next hkeep =>
        rw [hkeep] at hverdict
        exact hverdict
      . next hback =>
        rw [hback] at hverdict
        exact hverdict
      . exact trivial

/--
The characters so far are letters and digits, and a backslash was not taken for an escape.
-/
def Draft.IsName (d : Draft) : Prop :=
  d.escaping = false ∧ ∀ c ∈ d.reversed, Text.isNameChar c = true

theorem exists_of_not_accepts_notNameChar {t : Text}
    (h : Matcher.notNameChar.accepts (.text t) = false) :
    ∃ c, t = [c] ∧ Text.isNameChar c = true := by
  match t with
  | [] => cases h
  | [c] => exact ⟨c, rfl, by simpa [Matcher.notNameChar, Matcher.accepts] using h⟩
  | c :: c' :: t => cases h

theorem satisfies_judgeString_notNameChar (d : Draft) (t : Text) (hd : d.IsName) :
    (judgeString false false .notNameChar d t).Satisfies Draft.IsName := by
  obtain ⟨hescaping, hchars⟩ := hd
  unfold judgeString
  rw [if_neg (by simp [hescaping]), if_neg (by simp)]
  split
  . exact ⟨hescaping, hchars⟩
  . next haccepts =>
    obtain ⟨c, rfl, hc⟩ := exists_of_not_accepts_notNameChar (by simpa using haccepts)
    rw [if_neg (by rintro ⟨⟩; contradiction)]
    exact ⟨rfl, List.forall_mem_cons.mpr ⟨hc, hchars⟩⟩

theorem isNameChar_of_name {skipSpaces : Bool} {t : Text} {s s' : State}
    (h : name skipSpaces s = .ok t s') : ∀ c ∈ t, Text.isNameChar c = true := by
  have hname : Yields (name skipSpaces) s (fun t _ => ∀ c ∈ t, Text.isNameChar c = true)
      fun _ _ => True := by
    unfold name string
    simp only [yields_bind]
    refine yields_of_forall ?_ fun _ _ => trivial
    intro _ s₁
    refine (yields_pure _ s₁).mpr ?_
    unfold scan
    simp only [yields_bind, yields_cursor]
    apply (scan.yields_go satisfies_judgeString_notNameChar _ ⟨rfl, List.forall_mem_nil _⟩).mono
    . intro d s₂ hd
      refine yields_of_forall ?_ fun _ _ => trivial
      intro _ s₃ c hc
      exact hd.2 c (List.mem_reverse.mp hc)
    . intro _ _ _
      trivial
  exact hname.of_ok h

end Read

namespace Eval

/--
The property holds of the operations on the state, and of two computations one after the other if it
holds of both. The second one may be known from a result of the first.
-/
structure Inherited (P : ∀ {α : Type}, Eval α → Prop) : Prop where
  pure : ∀ {α : Type} (a : α), P (pure a)
  throw : ∀ {α : Type} (e : Stop), P (throw e : Eval α)
  cursor : P cursor
  moveTo : ∀ i, P (moveTo i)
  advance : ∀ n, P (advance n)
  record : ∀ event, event.Standard → P (record event)
  /-- Words that can all be written, on one line. -/
  trace : ∀ words : List Text, (∀ word ∈ words, word.OneLine) → P (trace (words.map some))
  bind_of_ok : ∀ {α β : Type} {x : Eval α} {f : α → Eval β}, P x →
    (∀ a s s', x s = .ok a s' → P (f a)) → P (x >>= f)

variable {P : ∀ {α : Type}, Eval α → Prop} {α β σ : Type} {reader : Eval Value}
  {evaluator : Evaluator}

namespace Inherited

theorem bind (h : Inherited P) {x : Eval α} {f : α → Eval β} (hx : P x) (hf : ∀ a, P (f a)) :
    P (x >>= f) :=
  h.bind_of_ok hx fun a _ _ _ => hf a

theorem index (h : Inherited P) : P index := by
  unfold Eval.index
  apply h.bind h.cursor
  intro c
  exact h.pure _

theorem raise (h : Inherited P) (f : Fault) (i : Option Int) : P (raise f i : Eval α) := by
  unfold Eval.raise
  apply h.bind h.cursor
  intro c
  exact h.throw _

theorem fault (h : Inherited P) (cause : Cause) (i : Int) : P (fault cause i : Eval α) :=
  h.raise _ _

theorem fault_bind (h : Inherited P) (cause : Cause) (i : Int) (f : α → Eval β) :
    P (Eval.fault cause i >>= f) := by
  apply h.bind_of_ok (h.fault cause i)
  intro a s s' hok
  cases hok

theorem fail (h : Inherited P) (failure : Failure) : P (fail failure : Eval α) := h.throw _

theorem orFail (h : Inherited P) (failure : Failure) (o : Option α) : P (orFail failure o) := by
  cases o with
  | none => exact h.fail failure
  | some a => exact h.pure a

theorem emit_stdout (h : Inherited P) (message : Text) : P (emit .stdout message) :=
  h.record _ (Or.inl rfl)

theorem pause (h : Inherited P) (seconds : Binary64) : P (pause seconds) := h.record _ trivial

theorem peek (h : Inherited P) : P Read.peek := by
  unfold Read.peek
  apply h.bind h.cursor
  intro c
  split
  . exact h.pure _
  . exact h.fail _

theorem char (h : Inherited P) : P Read.char := by
  unfold Read.char
  apply h.bind h.peek
  intro c
  apply h.bind (h.advance 1)
  intro _
  exact h.pure c

theorem spaces_go (h : Inherited P) (budget : Nat) : P (Read.spaces.go budget) := by
  induction budget with
  | zero => exact h.pure ()
  | succ budget ih =>
    unfold Read.spaces.go
    apply h.bind h.peek
    intro c
    split
    . apply h.bind (h.advance 1)
      intro _
      exact ih
    . exact h.pure ()

theorem spaces (h : Inherited P) : P Read.spaces := by
  unfold Read.spaces
  apply h.bind h.cursor
  intro c
  exact h.spaces_go _

theorem options_spaces (h : Inherited P) (options : Read.Options) : P options.spaces := by
  unfold Read.Options.spaces
  split
  . exact h.spaces
  . exact h.pure ()

theorem token (h : Inherited P) (t : Text) : P (Read.token t) := by
  unfold Read.token Read.atToken
  apply h.bind
  . apply h.bind h.cursor
    intro c
    exact h.pure _
  . intro found
    split
    . apply h.bind (h.advance _)
      intro _
      exact h.pure true
    . exact h.pure false

theorem rawUnit (h : Inherited P) : P Read.rawUnit := by
  unfold Read.rawUnit
  apply h.bind h.char
  intro c
  exact h.pure _

theorem scan_go (h : Inherited P) (judge : σ → Text → Read.Verdict σ) (hreader : P reader)
    (budget : Nat) (d : σ) : P (Read.scan.go reader judge budget d) := by
  induction budget generalizing d with
  | zero => exact h.throw _
  | succ budget ih =>
    unfold Read.scan.go
    apply h.bind h.index
    intro place
    apply h.bind hreader
    intro unit
    split
    . apply h.bind (h.moveTo place)
      intro _
      exact h.pure d
    . apply h.bind (h.orFail _ _)
      intro t
      split
      . exact ih _
      . exact h.pure _
      . apply h.bind (h.moveTo place)
        intro _
        exact h.pure _
      . exact h.fail _

theorem scan (h : Inherited P) (judge : σ → Text → Read.Verdict σ) (hreader : P reader) (start : σ) :
    P (Read.scan reader judge start) := by
  unfold Read.scan
  apply h.bind h.cursor
  intro c
  exact h.scan_go judge hreader _ start

theorem matcher (h : Inherited P) (options : Read.StringOptions) : P options.matcher := by
  unfold Read.StringOptions.matcher
  split
  . exact h.pure _
  . apply h.bind (h.token _)
    intro found
    exact h.pure _

theorem string (h : Inherited P) (hreader : P reader) (options : Read.StringOptions) :
    P (Read.string reader options) := by
  unfold Read.string
  apply h.bind (h.options_spaces _)
  intro _
  apply h.bind (h.matcher options)
  intro stop
  apply h.bind (h.scan _ hreader _)
  intro d
  apply h.bind (h.options_spaces _)
  intro _
  exact h.pure _

theorem name (h : Inherited P) (skipSpaces : Bool) : P (Read.name skipSpaces) :=
  h.string h.rawUnit _

theorem giveBack_spaces (h : Inherited P) (options : Read.Options) (start : Int) (back : Bool)
    (a : α) : P (do
      if back then Eval.moveTo start
      options.spaces
      return a) := by
  split
  . apply h.bind (h.moveTo start)
    intro _
    apply h.bind (h.options_spaces _)
    intro _
    exact h.pure a
  . apply h.bind (h.options_spaces _)
    intro _
    exact h.pure a

theorem int (h : Inherited P) (hreader : P reader) (options : Read.Options) :
    P (Read.int reader options) := by
  unfold Read.int
  apply h.bind (h.options_spaces _)
  intro _
  apply h.bind h.index
  intro start
  apply h.bind (h.token _)
  intro negative
  apply h.bind (h.scan _ hreader _)
  intro d
  exact h.giveBack_spaces options start _ _

theorem fraction (h : Inherited P) (hreader : P reader) (options : Read.Options)
    (whole : Read.Digits) : P (Read.fraction reader options whole) := by
  unfold Read.fraction
  apply h.bind h.index
  intro point
  dsimp only
  split
  . exact h.pure _
  . apply h.bind (h.token _)
    intro found
    split
    . apply h.bind (h.scan _ hreader _)
      intro d
      split
      . apply h.bind (h.moveTo point)
        intro _
        exact h.pure _
      . apply h.bind (h.orFail _ _)
        intro x
        exact h.pure _
    . exact h.pure _

theorem float (h : Inherited P) (hreader : P reader) (options : Read.Options) :
    P (Read.float reader options) := by
  unfold Read.float
  apply h.bind (h.options_spaces _)
  intro _
  apply h.bind h.index
  intro start
  apply h.bind (h.token _)
  intro negative
  apply h.bind (h.scan _ hreader _)
  intro whole
  apply h.bind (h.fraction hreader options whole)
  intro number
  exact h.giveBack_spaces options start _ _

theorem variableValue (h : Inherited P) : P Read.variableValue := by
  unfold Read.variableValue
  apply h.bind h.index
  intro start
  apply h.bind (h.name false)
  intro name
  apply h.bind h.cursor
  intro c
  split
  . exact h.pure _
  . exact h.fault _ _

theorem substitution (h : Inherited P) (hunit : P evaluator.unit)
    (hcommand : ∀ (c : Cursor) (t : Text), P (within (c.spawn t) evaluator.command)) :
    P (Read.substitution evaluator) := by
  unfold Read.substitution
  apply h.bind (h.string hunit _)
  intro text
  have hwords : ∀ word ∈ ["SUBST".toList, Text.literal text], Text.OneLine word := by
    rw [List.forall_mem_cons, List.forall_mem_singleton]
    exact ⟨by decide, Text.oneLine_literal text⟩
  apply h.bind (h.trace _ hwords)
  intro _
  apply h.bind h.cursor
  intro c
  apply h.bind (hcommand c text)
  intro v
  split <;> exact h.pure _

theorem unit (h : Inherited P) (hunit : P evaluator.unit)
    (hcommand : ∀ (c : Cursor) (t : Text), P (within (c.spawn t) evaluator.command)) :
    P (Read.unit evaluator) := by
  unfold Read.unit
  apply h.bind h.char
  intro c
  split
  . apply h.bind h.peek
    intro d
    split
    . split
      . apply h.bind (h.advance 1)
        intro _
        exact h.substitution hunit hcommand
      . split
        . exact h.variableValue
        . exact h.pure _
    . exact h.pure _
  . exact h.pure _

theorem range (h : Inherited P) (hunit : P evaluator.unit) : P (Standard.range evaluator) := by
  unfold Standard.range
  apply h.bind h.index
  intro place
  apply h.bind (h.int hunit _)
  intro start
  split
  . apply h.bind (h.int hunit _)
    intro stop
    apply h.bind h.index
    intro stepPlace
    apply h.bind (h.int hunit _)
    intro step
    dsimp only
    split
    . exact h.fault_bind _ _ _
    . split <;> exact h.pure _
  . exact h.fault _ _

theorem say (h : Inherited P) (hunit : P evaluator.unit) : P (Standard.say evaluator) := by
  unfold Standard.say
  apply h.bind (h.string hunit _)
  intro message
  apply h.bind (h.emit_stdout message)
  intro _
  exact h.pure _

theorem sleep (h : Inherited P) (hunit : P evaluator.unit) : P (Standard.sleep evaluator) := by
  unfold Standard.sleep
  apply h.bind h.index
  intro place
  apply h.bind (h.int hunit _)
  intro duration
  split
  . apply h.bind (h.orFail _ _)
    intro seconds
    apply h.bind (h.pause seconds)
    intro _
    exact h.pure _
  . exact h.fault _ _

theorem giveBack (h : Inherited P) (hunit : P evaluator.unit) : P (Standard.giveBack evaluator) := by
  unfold Standard.giveBack
  apply h.bind (h.string hunit _)
  intro text
  exact h.pure _

theorem block (h : Inherited P) (hunit : P evaluator.unit)
    (hcommands : ∀ (c : Cursor) (t : Text), P (within (c.spawn t) evaluator.commands)) :
    P (Standard.block evaluator) := by
  unfold Standard.block
  apply h.bind (h.string hunit _)
  intro text
  apply h.bind h.cursor
  intro c
  apply h.bind (hcommands c text)
  intro _
  exact h.pure _

theorem emptyLoopWarnings (h : Inherited P) :
    P (Standard.emptyLoopWarnings.forM (emit .stderr)) := by
  have hwarning : ∀ message ∈ Standard.emptyLoopWarnings, P (emit .stderr message) := by
    intro message hmem
    exact h.record _ (Or.inr ⟨rfl, hmem⟩)
  apply h.bind (hwarning _ (by simp [Standard.emptyLoopWarnings]))
  intro _
  apply h.bind (hwarning _ (by simp [Standard.emptyLoopWarnings]))
  intro _
  exact h.pure _

theorem findCommand (h : Inherited P) (registry : Registry Command) (hunit : P reader)
    (htrace : ∀ name command (c : Cursor) (i : Int), registry.lookup name = some command →
      P (Eval.trace [some "CALL".toList, some name, some "at".toList, c.numeral? i])) :
    P (findCommand registry reader) := by
  unfold LineScript.findCommand
  apply h.bind h.spaces
  intro _
  apply h.bind h.index
  intro start
  apply h.bind (h.string hunit _)
  intro name
  split
  . exact h.pure _
  . split
    . exact h.fault _ _
    . next command hlookup =>
      apply h.bind h.cursor
      intro c
      apply h.bind (htrace name command c start hlookup)
      intro _
      exact h.pure _

theorem failUneven (h : Inherited P) (first offset : Int) (iteration : Nat) :
    P (failUneven first offset iteration : Eval α) := by
  have hwrite : ∀ (c : Cursor) (i : Int),
      P (discard (Eval.orFail .unprintable (c.numeral? i))) := by
    intro c i
    cases c.numeral? i with
    | none => exact h.fail _
    | some t => exact h.pure _
  unfold LineScript.failUneven
  apply h.bind h.cursor
  intro c
  simp only [List.forIn_cons, List.forIn_nil, bind_assoc, pure_bind]
  apply h.bind (hwrite c _)
  intro _
  apply h.bind (hwrite c _)
  intro _
  apply h.bind (hwrite c _)
  intro _
  exact h.raise _ _

/--
What a loop does with an element, apart from the commands that it runs on another cursor.
-/
theorem runElement (h : Inherited P) {commands : Eval Unit} (name : Text) (element : Value)
    (hcommands : ∀ (c : Cursor) (i : Int), P (within c do
      commands
      return (← Eval.index) - i))
    (htrace : ∀ shown (c : Cursor) (i : Int), element.literal? = some shown →
      P (Eval.trace [some "ITER".toList, some name, some ['='], some shown, some "offset".toList,
        c.numeral? i])) :
    P (runElement commands name element) := by
  unfold LineScript.runElement
  apply h.bind h.cursor
  intro c
  apply h.bind (hcommands _ _)
  intro offset
  apply h.bind_of_ok (h.orFail _ _)
  intro shown s s' hshown
  apply h.bind (htrace shown c offset (eq_some_of_orFail hshown))
  intro _
  exact h.pure _

theorem iterate_go (h : Inherited P) {commands : Eval Unit} {name : Text} {elements : Elements}
    (hrun : ∀ element, P (LineScript.runElement commands name element)) (left : Nat)
    (first : Option Int) (done : List Int) : P (iterate.go commands name elements left first done) := by
  induction left generalizing first done with
  | zero => exact h.pure _
  | succ left ih =>
    unfold iterate.go
    apply h.bind (hrun _)
    intro offset
    dsimp only
    split
    . exact h.bind (h.failUneven _ _ _) fun _ => ih _ _
    . exact ih _ _

theorem iterate (h : Inherited P) {commands : Eval Unit} (name : Text) (elements : Elements)
    (hrun : ∀ element, P (LineScript.runElement commands name element)) :
    P (iterate commands name elements) := by
  unfold LineScript.iterate
  apply h.bind (h.iterate_go hrun _ _ _)
  intro offsets
  split
  . exact h.bind (h.advance _) fun _ => h.pure _
  . exact h.pure _

theorem forEach (h : Inherited P) (hunit : P evaluator.unit) (hcommand : P evaluator.command)
    (hiterate : ∀ name elements, (∀ c ∈ name, Text.isNameChar c = true) →
      P (LineScript.iterate evaluator.commands name elements)) :
    P (Standard.forEach evaluator) := by
  unfold Standard.forEach
  apply h.bind h.index
  intro place
  apply h.bind_of_ok (h.name false)
  intro name s s' hname
  dsimp only
  split
  . exact h.fault_bind _ _ _
  . apply h.bind h.spaces
    intro _
    apply h.bind h.index
    intro place
    apply h.bind (h.string hunit _)
    intro specifier
    split
    . apply h.bind h.index
      intro place
      apply h.bind hcommand
      intro v
      split
      . apply h.bind h.index
        intro place
        apply h.bind (h.string hunit _)
        intro action
        split
        . apply h.bind (hiterate _ _ (Read.isNameChar_of_name hname))
          intro offsets
          split
          . apply h.bind h.emptyLoopWarnings
            intro _
            exact h.pure _
          . exact h.pure _
        . exact h.fault_bind _ _ _
      . apply h.bind (h.orFail _ _)
        intro shown
        exact h.fault _ _
    . exact h.fault_bind _ _ _

end Inherited

end Eval

theorem exists_lookup_of_findCommand {registry : Registry Command} {unit : Eval Value}
    {command : Command} {s s' : State}
    (h : findCommand registry unit s = .ok (some command) s') :
    ∃ name, registry.lookup name = some command := by
  have hfind : Eval.Yields (findCommand registry unit) s
      (fun found _ => ∀ command, found = some command → ∃ name, registry.lookup name = some command)
      fun _ _ => True := by
    unfold findCommand
    simp only [Eval.yields_bind, Eval.yields_index]
    refine Eval.yields_of_forall ?_ fun _ _ => trivial
    intro _ s₁
    refine Eval.yields_of_forall ?_ fun _ _ => trivial
    intro name s₂
    split
    . rw [Eval.yields_pure]
      intro command hcommand
      cases hcommand
    . split
      . exact trivial
      . next command hlookup =>
        simp only [Eval.yields_bind, Eval.yields_cursor, Eval.yields_pure]
        refine Eval.yields_of_forall ?_ fun _ _ => trivial
        intro _ _ command' hcommand
        cases hcommand
        exact ⟨name, hlookup⟩
  exact hfind.of_ok h command rfl

/--
The evaluator has the property in all its ways to go on.
-/
structure Evaluator.Has (P : ∀ {α : Type}, Eval α → Prop) (evaluator : Evaluator) : Prop where
  unit : P evaluator.unit
  command : P evaluator.command
  commands : P evaluator.commands

def Registry.Has (P : ∀ {α : Type}, Eval α → Prop) (registry : Registry Command) : Prop :=
  ∀ name command, registry.lookup name = some command →
    ∀ evaluator : Evaluator, evaluator.Has P → P (command.body evaluator)

namespace Eval.Inherited

variable {P : ∀ {α : Type}, Eval α → Prop} {evaluator : Evaluator} {registry : Registry Command}

theorem standard (h : Inherited P)
    (hwithin : ∀ {α : Type} {x : Eval α} (c : Cursor), P x → P (within c x))
    (htrace : ∀ words, (∀ word, some word ∈ words → word.OneLine) → P (Eval.trace words)) :
    Standard.registry.Has P := by
  intro name command hlookup evaluator heval
  have hiterate : ∀ name elements, (∀ c ∈ name, Text.isNameChar c = true) →
      P (LineScript.iterate evaluator.commands name elements) := by
    intro name elements hname
    apply h.iterate
    intro element
    apply h.runElement
    . intro c i
      apply hwithin
      apply h.bind heval.commands
      intro _
      exact h.bind h.index fun _ => h.pure _
    . intro shown c i hshown
      apply htrace
      intro word hword
      simp only [List.mem_cons, Option.some.injEq, List.not_mem_nil, or_false] at hword
      obtain rfl | rfl | rfl | rfl | rfl | hnumeral := hword
      . decide
      . exact Text.oneLine_of_isNameChar hname
      . decide
      . exact Value.oneLine_of_literal? hshown
      . decide
      . exact Cursor.oneLine_of_numeral? hnumeral.symm
  obtain ⟨-, hbody⟩ | ⟨-, hbody⟩ | ⟨-, hbody⟩ | ⟨-, hbody⟩ | ⟨-, hbody⟩ | ⟨-, hbody⟩ :=
    Standard.lookup_cases hlookup
  . exact hbody ▸ h.forEach heval.unit heval.command hiterate
  . exact hbody ▸ h.range heval.unit
  . exact hbody ▸ h.giveBack heval.unit
  . exact hbody ▸ h.say heval.unit
  . exact hbody ▸ h.sleep heval.unit
  . exact hbody ▸ h.block heval.unit fun _ _ => hwithin _ heval.commands

theorem above (h : Inherited P)
    (hwithin : ∀ {α : Type} {x : Eval α} (c : Cursor), P x → P (within c x))
    (htrace : ∀ name command (c : Cursor) (i : Int), registry.lookup name = some command →
      P (Eval.trace [some "CALL".toList, some name, some "at".toList, c.numeral? i]))
    (hregistry : registry.Has P) (heval : evaluator.Has P) :
    (Evaluator.above registry evaluator).Has P := by
  have hunit : P (Read.unit evaluator) :=
    h.unit heval.unit fun _ _ => hwithin _ heval.command
  have hcommand : P (Evaluator.above registry evaluator).command := by
    apply h.bind_of_ok (h.findCommand registry hunit htrace)
    intro found s s' hfind
    cases found with
    | none => exact h.pure _
    | some command =>
      obtain ⟨name, hlookup⟩ := exists_lookup_of_findCommand hfind
      exact hregistry name command hlookup _ ⟨hunit, heval.command, heval.commands⟩
  refine ⟨hunit, hcommand, ?_⟩
  apply h.bind hcommand
  intro v
  split
  . exact h.pure _
  . exact heval.commands

theorem ofLevel (h : Inherited P)
    (hwithin : ∀ {α : Type} {x : Eval α} (c : Cursor), P x → P (within c x))
    (htrace : ∀ name command (c : Cursor) (i : Int), registry.lookup name = some command →
      P (Eval.trace [some "CALL".toList, some name, some "at".toList, c.numeral? i]))
    (hregistry : registry.Has P) (level : Nat) :
    (Evaluator.ofLevel registry level).Has P := by
  induction level with
  | zero => exact ⟨h.throw _, h.throw _, h.throw _⟩
  | succ level ih => exact h.above hwithin htrace hregistry ih

end Eval.Inherited

end LineScript
