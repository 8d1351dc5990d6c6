import LineScript.Proofs.Invoke
import LineScript.Session

/-!
This module contains lines of literal statements with semicolons between them. A statement either takes
the semicolon after it or leaves it, and that depends on how its last argument ends. Where a statement
leaves its semicolon, the line is over: the statements after it are lost.
-/

namespace LineScript

def Text.Unmarked (t : Text) : Prop := ∀ c ∈ t, c ≠ '$' ∧ c ≠ ';' ∧ c ≠ '\\' ∧ c ≠ '"'

instance (t : Text) : Decidable t.Unmarked :=
  List.decidableBAll (fun c => c ≠ '$' ∧ c ≠ ';' ∧ c ≠ '\\' ∧ c ≠ '"') t

/--
A literal statement. The durations are those that can be waited for.
-/
inductive Statement
  | say (text : Text) (hmarks : text.Unmarked) (hstart : ∃ c rest, text = c :: rest ∧ c ≠ ' ')
  | giveBack (word : Text) (hmarks : word.Unmarked) (hne : word ≠ []) (hword : ∀ c ∈ word, c ≠ ' ')
  | giveBackQuoted (text : Text) (hmarks : text.Unmarked)
  | sleep (negative : Bool) (digits : Text) (seconds : Binary64)
    (hdigits : Numeral.isNumeral digits = true)
    (hseconds : Binary64.ofRatio (Numeral.signed negative digits).toNat 1000 = some seconds)

def Effect.trimmed (effect : Effect) : Effect :=
  { effect with message := effect.message.dropTail (· == ' ') }

namespace Statement

def keyword : Statement → Text
  | say .. => "say".toList
  | giveBack .. => "return".toList
  | giveBackQuoted .. => "return".toList
  | sleep .. => "sleep".toList

def argument : Statement → Text
  | say text .. => text
  | giveBack word .. => word
  | giveBackQuoted text _ => '"' :: text ++ ['"']
  | sleep negative digits .. => (if negative then ['-'] else []) ++ digits

def text (statement : Statement) : Text := statement.keyword ++ ' ' :: statement.argument

def effect? (spaces : Nat) : Statement → Option Effect
  | say text .. => some ⟨.stdout, text ++ List.replicate spaces ' '⟩
  | _ => none

def seconds? : Statement → Option Binary64
  | sleep _ _ seconds .. => some seconds
  | _ => none

def isReturn : Statement → Bool
  | giveBack .. => true
  | giveBackQuoted .. => true
  | _ => false

/--
Does the statement leave its semicolon, if there are spaces before it? The read of a word or a number
ends at the spaces, and that of a quoted string at its quote. Only `say` always goes on to the end.
-/
def leavesSemicolon (spaces : Nat) : Statement → Bool
  | say .. => false
  | giveBackQuoted .. => true
  | _ => spaces != 0

end Statement

/--
One or more statements, with spaces before and after the semicolons between them.
-/
inductive Line
  | last (statement : Statement)
  | cons (statement : Statement) (before after : Nat) (more : Line)

namespace Line

def text : Line → Text
  | last statement => statement.text
  | cons statement before after more =>
    statement.text ++ (List.replicate before ' ' ++ ';' :: (List.replicate after ' ' ++ more.text))

def statements : Line → List Statement
  | last statement => [statement]
  | cons statement _ _ more => statement :: more.statements

/--
The statements up to the first one that leaves its semicolon, with the number of spaces after each.
-/
def performed : Line → List (Statement × Nat)
  | last statement => [(statement, 0)]
  | cons statement before _ more =>
    (statement, before) :: if statement.leavesSemicolon before then [] else more.performed

/--
The statements after the first one that leaves its semicolon.
-/
def lost : Line → List Statement
  | last _ => []
  | cons statement before _ more =>
    if statement.leavesSemicolon before then more.statements else more.lost

theorem statements_eq (line : Line) : line.statements = line.performed.map (·.1) ++ line.lost := by
  induction line with
  | last statement => rfl
  | cons statement before after more ih =>
    unfold statements performed lost
    split
    . rfl
    . rw [ih]
      rfl

end Line

/--
The second log goes on from the first one. Apart from lines for the one who watches, `events` is what
is new.
-/
def Log.Adds (log : Log) (events : List Event) (log' : Log) : Prop :=
  ∃ new : List Event, log' = log ++ new.toArray ∧ new.filter (·.trace?.isNone) = events

namespace Log

theorem adds_nil (log : Log) : Adds log [] log := ⟨[], by simp, rfl⟩

theorem adds_push (log : Log) {event : Event} (h : event.trace? = none) :
    Adds log [event] (log.push event) :=
  ⟨[event], by simp, by simp [h]⟩

theorem adds_note (s : State) (line : Text) : Adds s.log [] (s.note line).log := by
  unfold State.note
  split
  . exact ⟨[.trace line], by simp, rfl⟩
  . exact adds_nil _

theorem Adds.trans {log log' log'' : Log} {events events' : List Event} (h : Adds log events log')
    (h' : Adds log' events' log'') : Adds log (events ++ events') log'' := by
  obtain ⟨new, rfl, rfl⟩ := h
  obtain ⟨new', rfl, rfl⟩ := h'
  exact ⟨new ++ new', by simp, by simp⟩

end Log

namespace Statement

open Eval Cursor Read

variable {s : State} {tail : Text}

def events (spaces : Nat) (statement : Statement) : List Event :=
  (statement.effect? spaces).toList.map .effect ++ statement.seconds?.toList.map .pause

def body : Statement → Evaluator → Eval Value
  | say .. => Standard.say
  | giveBack .. => Standard.giveBack
  | giveBackQuoted .. => Standard.giveBack
  | sleep .. => Standard.sleep

def left (spaces : Nat) (statement : Statement) : Option Text :=
  if statement.leavesSemicolon spaces then some [] else none

theorem lookup_keyword (statement : Statement) :
    Standard.registry.lookup statement.keyword = some ⟨statement.keyword, statement.body⟩ := by
  rw [Standard.registry_eq]
  cases statement <;> rfl

theorem keyword_mem (statement : Statement) : statement.keyword ∈ Standard.plainNames := by
  unfold keyword Standard.plainNames
  cases statement <;> simp only [List.mem_cons, true_or, or_true]

theorem digits_of_isNumeral {digits : Text} (h : Numeral.isNumeral digits = true) :
    digits ≠ [] ∧ ∀ c ∈ digits, Text.isDigit c = true := by
  simpa [Numeral.isNumeral] using h

theorem argument_eq_cons (statement : Statement) :
    ∃ c rest, statement.argument = c :: rest ∧ c ≠ ' ' := by
  cases statement with
  | say text _ hstart => exact hstart
  | giveBack word _ hne hword =>
    cases word with
    | nil => exact absurd rfl hne
    | cons c rest => exact ⟨c, rest, rfl, hword c List.mem_cons_self⟩
  | giveBackQuoted text _ => exact ⟨'"', text ++ ['"'], rfl, by decide⟩
  | sleep negative digits _ hnumeral _ =>
    obtain ⟨hne, hdigits⟩ := digits_of_isNumeral hnumeral
    cases negative with
    | true => exact ⟨'-', digits, rfl, by decide⟩
    | false =>
      cases digits with
      | nil => exact absurd rfl hne
      | cons c rest =>
        exact ⟨c, rest, rfl, Text.ne_of_isDigit (hdigits c List.mem_cons_self) (by decide)⟩

theorem bare_argument (statement : Statement) : statement.argument.Bare := by
  have hunmarked : ∀ {t : Text}, t.Unmarked → t.Bare := by
    intro t h c hc
    obtain ⟨hdollar, hsemicolon, hbackslash, -⟩ := h c hc
    exact ⟨hsemicolon, hbackslash, hdollar⟩
  cases statement with
  | say text hmarks _ => exact hunmarked hmarks
  | giveBack word hmarks _ _ => exact hunmarked hmarks
  | giveBackQuoted text hmarks =>
    intro c hc
    have hmem : c = '"' ∨ c ∈ text := by
      simp only [argument, List.mem_append, List.mem_cons, List.not_mem_nil, or_false] at hc
      grind
    cases hmem with
    | inl heq => simp [heq]
    | inr hmem => exact hunmarked hmarks c hmem
  | sleep negative digits _ hnumeral _ =>
    intro c hc
    have hmem : c = '-' ∨ Text.isDigit c = true := by
      cases List.mem_append.mp hc with
      | inl hsign =>
        cases negative <;> simp_all
      | inr hdigit => exact Or.inr ((digits_of_isNumeral hnumeral).2 c hdigit)
    cases hmem with
    | inl heq => simp [heq]
    | inr hdigit =>
      exact ⟨Text.ne_of_isDigit hdigit (by decide), Text.ne_of_isDigit hdigit (by decide),
        Text.ne_of_isDigit hdigit (by decide)⟩

theorem bare_append_spaces {t : Text} (h : t.Bare) (spaces : Nat) :
    Text.Bare (t ++ List.replicate spaces ' ') := by
  intro c hc
  cases List.mem_append.mp hc with
  | inl hmem => exact h c hmem
  | inr hmem => simp [List.eq_of_mem_replicate hmem]

theorem dropSpaces_argument (statement : Statement) (t : Text) :
    Text.dropSpaces (statement.argument ++ t) = statement.argument ++ t := by
  obtain ⟨c, rest, heq, hc⟩ := statement.argument_eq_cons
  rw [heq, List.cons_append, Text.dropSpaces_cons hc]

theorem string_word_spaces {word : Text} (hmarks : word.Unmarked) (hne : word ≠ [])
    (hword : ∀ c ∈ word, c ≠ ' ') (spaces : Nat) :
    Argument.string (word ++ List.replicate spaces ' ') =
      (word, if spaces != 0 then some [] else none) := by
  have hquote : word.head? ≠ some '"' := by
    intro hhead
    exact (hmarks '"' (List.mem_of_mem_head? hhead)).2.2.2 rfl
  obtain ⟨hend, hspace⟩ := Argument.string_word hne hquote hword
  cases spaces with
  | zero =>
    rw [List.replicate_zero, List.append_nil, hend]
    rfl
  | succ n =>
    rw [List.replicate_succ, hspace, Text.dropSpaces_spaces]
    rfl

theorem string_quoted_spaces {text : Text} (hmarks : text.Unmarked) (spaces : Nat) :
    Argument.string ('"' :: text ++ ['"'] ++ List.replicate spaces ' ') = (text, some []) := by
  have hquote : ∀ c ∈ text, c ≠ '"' := fun c hc => (hmarks c hc).2.2.2
  rw [List.append_assoc, List.cons_append, List.cons_append, Argument.string_quoted, List.nil_append,
    Argument.upTo_append hquote, Text.dropSpaces_spaces]

theorem int_digits_spaces {digits : Text} (hnumeral : Numeral.isNumeral digits = true)
    (negative : Bool) (spaces : Nat) :
    Argument.int ((if negative then ['-'] else []) ++ digits ++ List.replicate spaces ' ') =
      (some (Numeral.signed negative digits), if spaces != 0 then some [] else none) := by
  obtain ⟨hne, hdigits⟩ := digits_of_isNumeral hnumeral
  rw [Argument.int_append hdigits hne, Text.dropSpaces_spaces]
  . have hvalue : Argument.value negative digits = some (Numeral.signed negative digits) := by
      simp [Argument.value, hne]
    rw [hvalue]
    cases spaces <;> simp
  . intro c hc
    rw [List.eq_of_mem_replicate (List.mem_of_mem_head? hc)]
    rfl

theorem body_eq (statement : Statement) (spaces : Nat) {evaluator : Evaluator}
    (hreader : Verbatim evaluator.unit (· != '$')) (hs : s.cursor.InText) (htail : tail.Closes)
    (hahead : s.cursor.ahead = statement.argument ++ List.replicate spaces ' ' ++ tail) :
    ∃ v s', statement.body evaluator s = .ok v s' ∧ v.isFinish = false ∧ s'.cursor.InText ∧
      s'.cursor.ahead = Text.resume tail (statement.left spaces) ∧
      s.log.Adds (statement.events spaces) s'.log := by
  have hbare := bare_append_spaces statement.bare_argument spaces
  cases statement with
  | say text hmarks hstart =>
    have hread := reads_argument_line hreader hbare htail
    rw [dropSpaces_argument] at hread
    obtain ⟨used, hused, hsay⟩ := Standard.say_eq hs hahead hread
    obtain ⟨hs', hahead'⟩ := advance_of_eq_append hs (hahead.trans hused)
    exact ⟨_, _, hsay, rfl, hs', hahead', Log.adds_push _ rfl⟩
  | giveBack word hmarks hne hword =>
    have hread := reads_argument_string hreader hbare htail
    simp only [argument, string_word_spaces hmarks hne hword] at hread
    obtain ⟨used, hused, hgive⟩ := Standard.giveBack_eq hs hahead hread
    obtain ⟨hs', hahead'⟩ := advance_of_eq_append hs (hahead.trans hused)
    exact ⟨_, _, hgive, rfl, hs', hahead', Log.adds_nil _⟩
  | giveBackQuoted text hmarks =>
    have hread := reads_argument_string hreader hbare htail
    simp only [argument, string_quoted_spaces hmarks] at hread
    obtain ⟨used, hused, hgive⟩ := Standard.giveBack_eq hs hahead hread
    obtain ⟨hs', hahead'⟩ := advance_of_eq_append hs (hahead.trans hused)
    exact ⟨_, _, hgive, rfl, hs', hahead', Log.adds_nil _⟩
  | sleep negative digits seconds hnumeral hseconds =>
    have hend : Text.dropSpaces ((sleep negative digits seconds hnumeral hseconds).argument ++
        List.replicate spaces ' ') ≠ ['-'] := by
      obtain ⟨hne, hdigits⟩ := digits_of_isNumeral hnumeral
      obtain ⟨c, hc⟩ := List.exists_mem_of_ne_nil digits hne
      intro heq
      rw [dropSpaces_argument] at heq
      have hmem : c ∈ ['-'] := by
        rw [← heq]
        simp [argument, hc]
      exact Text.ne_of_isDigit (hdigits c hc) (by decide) (List.mem_singleton.mp hmem)
    have hread := reads_argument_int hreader hbare htail (Or.inl hend)
    simp only [argument, int_digits_spaces hnumeral] at hread
    obtain ⟨used, hused, hsleep⟩ := Standard.sleep_eq hs hahead hread
    simp only [Standard.sleepResult, hseconds] at hsleep
    obtain ⟨hs', hahead'⟩ := advance_of_eq_append hs (hahead.trans hused)
    exact ⟨_, _, hsleep, rfl, hs', hahead', Log.adds_push _ rfl⟩

theorem command_eq (statement : Statement) (spaces : Nat) (level : Nat) (hs : s.cursor.InText)
    (htail : tail.Closes)
    (hahead : s.cursor.ahead = statement.text ++ List.replicate spaces ' ' ++ tail) :
    ∃ v s', (Evaluator.ofLevel Standard.registry (level + 1)).command s = .ok v s' ∧
      v.isFinish = false ∧ s'.cursor.InText ∧
      s'.cursor.ahead = Text.resume tail (statement.left spaces) ∧
      s.log.Adds (statement.events spaces) s'.log := by
  have htext : s.cursor.ahead =
      statement.keyword ++ ' ' :: (statement.argument ++ List.replicate spaces ' ') ++ tail := by
    rw [hahead, text]
    simp
  obtain ⟨used, hused, hcommand⟩ := Standard.command_eq_of_space level
    statement.keyword_mem statement.lookup_keyword hs htext
    (bare_append_spaces statement.bare_argument spaces) htail
  obtain ⟨hs₁, hahead₁⟩ := advance_of_eq_append hs (htext.trans hused)
  rw [dropSpaces_argument] at hahead₁
  have hnote := Log.adds_note (s.advance used.length) (callLine statement.keyword s.cursor.index)
  generalize hstate : (s.advance used.length).note (callLine statement.keyword s.cursor.index) = s₁
    at hcommand hnote
  have hcursor : s₁.cursor = (s.advance used.length).cursor := by rw [← hstate, State.note_cursor]
  obtain ⟨v, s', hbody, hv, hs', hahead', hadds⟩ := statement.body_eq spaces
    (Evaluator.verbatim_bodies Standard.registry level) (hcursor ▸ hs₁) htail (hcursor ▸ hahead₁)
  exact ⟨v, s', hcommand.trans hbody, hv, hs', hahead', hnote.trans hadds⟩

end Statement

namespace Line

open Eval Cursor Read

variable {s : State}

def events (line : Line) : List Event :=
  line.performed.flatMap fun (statement, spaces) => statement.events spaces

theorem dropSpaces_text (line : Line) : line.text.dropSpaces = line.text := by
  cases line with
  | last statement => cases statement <;> rfl
  | cons statement before after more => cases statement <;> rfl

theorem commands_eq (line : Line) (level : Nat) (hlevel : line.statements.length < level)
    (hs : s.cursor.InText) (hahead : s.cursor.ahead = line.text) :
    ∃ s', (Evaluator.ofLevel Standard.registry level).commands s = .ok () s' ∧
      s.log.Adds line.events s'.log := by
  induction line generalizing s level with
  | last statement =>
    obtain ⟨level, rfl⟩ : ∃ n, level = n + 2 := ⟨level - 2, by simp [statements] at hlevel; omega⟩
    have hahead : s.cursor.ahead = statement.text ++ List.replicate 0 ' ' ++ [] := by
      rw [hahead]
      simp [text]
    obtain ⟨v, s₁, hcommand, hv, hs₁, hahead₁, hadds⟩ :=
      statement.command_eq 0 (level + 1) hs .nil hahead
    have hclosed : s₁.cursor.ahead.Closes := by
      rw [hahead₁, Statement.left]
      split <;> exact .nil
    obtain ⟨used, hend⟩ := Evaluator.commands_of_closes hcommand hv hs₁ hclosed
    refine ⟨_, hend, ?_⟩
    simpa [events, performed] using hadds
  | cons statement before after more ih =>
    obtain ⟨level, rfl⟩ : ∃ n, level = n + 2 := ⟨level - 2, by simp [statements] at hlevel; omega⟩
    have hahead : s.cursor.ahead = statement.text ++ List.replicate before ' ' ++
        ';' :: (List.replicate after ' ' ++ more.text) := by
      rw [hahead]
      simp [text]
    obtain ⟨v, s₁, hcommand, hv, hs₁, hahead₁, hadds⟩ :=
      statement.command_eq before (level + 1) hs (.semicolon _) hahead
    cases hleaves : statement.leavesSemicolon before with
    | true =>
      -- the next command starts at the semicolon, where no name is
      have hclosed : s₁.cursor.ahead.Closes := by
        rw [hahead₁, Statement.left, hleaves]
        exact .semicolon _
      obtain ⟨used, hend⟩ := Evaluator.commands_of_closes hcommand hv hs₁ hclosed
      refine ⟨_, hend, ?_⟩
      simpa [events, performed, hleaves] using hadds
    | false =>
      have hmore : s₁.cursor.ahead = more.text := by
        rw [hahead₁, Statement.left, hleaves]
        exact (Text.dropSpaces_replicate after more.text).trans more.dropSpaces_text
      obtain ⟨s', hrest, hadds'⟩ := ih (level + 1) (by simp [statements] at hlevel; omega) hs₁ hmore
      refine ⟨s', (Evaluator.commands_of_command hcommand hv).trans hrest, ?_⟩
      have hevents : events (cons statement before after more) =
          statement.events before ++ more.events := by
        simp [events, performed, hleaves]
      rw [hevents]
      exact hadds.trans hadds'

def effects (line : Line) : List Effect :=
  line.performed.filterMap fun (statement, spaces) => statement.effect? spaces

def pauses (line : Line) : List Binary64 :=
  line.performed.filterMap fun (statement, _) => statement.seconds?

/--
All statements of the line are accounted for: the messages are those of its `say` statements, up to
spaces at their ends, and the waits are those of its `sleep` statements.
-/
def Complete (line : Line) (effects : List Effect) (pauses : List Binary64) : Prop :=
  effects.map Effect.trimmed =
      line.statements.filterMap (fun statement => (statement.effect? 0).map Effect.trimmed) ∧
    pauses = line.statements.filterMap Statement.seconds?

theorem filterMap_events {γ : Type} {f : Event → Option γ} {g : Statement × Nat → Option γ}
    (h : ∀ statement spaces, (Statement.events spaces statement).filterMap f =
      (g (statement, spaces)).toList) (line : Line) :
    line.events.filterMap f = line.performed.filterMap g := by
  unfold events
  induction line.performed with
  | nil => rfl
  | cons pair rest ih =>
    obtain ⟨statement, spaces⟩ := pair
    rw [List.flatMap_cons, List.filterMap_append, ih, h, List.filterMap_cons]
    cases g (statement, spaces) <;> rfl

theorem effects_events (line : Line) : line.events.filterMap Event.effect? = line.effects := by
  apply filterMap_events
  intro statement spaces
  cases statement <;> rfl

theorem pauses_events (line : Line) : line.events.filterMap Event.pause? = line.pauses := by
  apply filterMap_events
  intro statement spaces
  cases statement <;> rfl

theorem trimmed_effect? (statement : Statement) (spaces : Nat) :
    (statement.effect? spaces).map Effect.trimmed = (statement.effect? 0).map Effect.trimmed := by
  cases statement with
  | say text _ _ =>
    have hdrop : Text.dropTail (· == ' ') (text ++ List.replicate spaces ' ') =
        Text.dropTail (· == ' ') text := by
      unfold Text.dropTail
      rw [List.reverse_append, List.reverse_replicate]
      exact congrArg List.reverse (Text.dropSpaces_replicate spaces text.reverse)
    simp [Statement.effect?, Effect.trimmed, hdrop]
  | _ => rfl

theorem isReturn_iff (statement : Statement) :
    statement.isReturn = true ↔
      (statement.effect? 0).map Effect.trimmed = none ∧ statement.seconds? = none := by
  cases statement <;> simp [Statement.isReturn, Statement.effect?, Statement.seconds?]

theorem complete_iff (line : Line) :
    line.Complete line.effects line.pauses ↔ ∀ statement ∈ line.lost, statement.isReturn = true := by
  have heffects : line.effects.map Effect.trimmed =
      (line.performed.map (·.1)).filterMap fun statement =>
        (statement.effect? 0).map Effect.trimmed := by
    unfold effects
    rw [List.map_filterMap, List.filterMap_map]
    simp only [trimmed_effect?, Function.comp_def]
  have hpauses : line.pauses = (line.performed.map (·.1)).filterMap Statement.seconds? := by
    unfold pauses
    rw [List.filterMap_map]
    rfl
  unfold Complete
  rw [heffects, hpauses, line.statements_eq, List.filterMap_append, List.filterMap_append,
    List.self_eq_append_right, List.self_eq_append_right, List.filterMap_eq_nil_iff,
    List.filterMap_eq_nil_iff]
  simp only [isReturn_iff]
  constructor
  . rintro ⟨h, h'⟩ statement hmem
    exact ⟨h statement hmem, h' statement hmem⟩
  . intro h
    exact ⟨fun statement hmem => (h statement hmem).1, fun statement hmem => (h statement hmem).2⟩

end Line

namespace Session

open Cursor

theorem newEvents_of_adds {session : Session} {events : List Event} {log : Log}
    (h : session.log.Adds events log) :
    (session.newEvents log).effects = events.filterMap Event.effect? ∧
      (session.newEvents log).pauses = events.filterMap Event.pause? := by
  obtain ⟨new, rfl, rfl⟩ := h
  have hnew : session.newEvents (session.log ++ new.toArray) = new.toArray := by
    simp [newEvents]
  rw [hnew]
  unfold Log.effects Log.pauses
  rw [List.filterMap_filter, List.filterMap_filter]
  constructor
  all_goals
    congr 1
    funext event
    cases event <;> rfl

theorem run?_line_eq (session : Session) (line : Line) (level : Nat)
    (hlevel : line.statements.length < level) :
    ∃ report next,
      { session with registry := Standard.registry, level }.run? line.text = some (report, next) ∧
        report.isSuccess = true ∧ report.effects = line.effects ∧
        (session.newEvents next.log).pauses = line.pauses := by
  have hin : (session.start line.text).cursor.InText := spawn_inText { buffer := [] } line.text
  obtain ⟨s, hcommands, hadds⟩ := line.commands_eq level hlevel hin rfl
  have hevents : session.log.Adds line.events s.log := hadds
  obtain ⟨heffects, hpauses⟩ := newEvents_of_adds hevents
  rw [line.effects_events] at heffects
  rw [line.pauses_events] at hpauses
  refine ⟨.success (session.newEvents s.log).effects,
    { session with registry := Standard.registry, level, log := s.log }, ?_, rfl, heffects, hpauses⟩
  have hrun : { session with registry := Standard.registry, level }.evaluator.commands
      ({ session with registry := Standard.registry, level }.start line.text) = .ok () s := hcommands
  unfold run?
  rw [hrun]
  rfl

/--
A line of literal statements is run without a problem. Its statements are performed up to the first one
that leaves its semicolon, so all of them are accounted for if and only if nothing but `return` comes
after that one.
-/
theorem run?_line (session : Session) (line : Line) (level : Nat)
    (hlevel : line.statements.length < level) :
    ∃ report next,
      { session with registry := Standard.registry, level }.run? line.text = some (report, next) ∧
        report.isSuccess = true ∧ report.effects = line.effects ∧
        (session.newEvents next.log).pauses = line.pauses ∧
        (line.Complete report.effects (session.newEvents next.log).pauses ↔
          ∀ statement ∈ line.lost, statement.isReturn = true) := by
  obtain ⟨report, next, hrun, hsuccess, heffects, hpauses⟩ :=
    run?_line_eq session line level hlevel
  refine ⟨report, next, hrun, hsuccess, heffects, hpauses, ?_⟩
  rw [heffects, hpauses]
  exact line.complete_iff

/--
The line `return "a";say b`, whose first statement leaves its semicolon.
-/
def quotedThenSay : Line :=
  .cons (.giveBackQuoted ['a'] (by decide)) 0 0 (.last (.say ['b'] (by decide) ⟨'b', [], rfl, by decide⟩))

theorem run?_line_quotedThenSay :
    quotedThenSay.text = "return \"a\";say b".toList ∧ quotedThenSay.statements.length < 3 ∧
      ∃ report next, run? { level := 3 } quotedThenSay.text = some (report, next) ∧
        report.isSuccess = true ∧ report.effects = [] ∧
        (newEvents {} next.log).pauses = [] ∧
        ¬ quotedThenSay.Complete report.effects (newEvents {} next.log).pauses := by
  obtain ⟨report, next, hrun, hsuccess, heffects, hpauses, hcomplete⟩ :=
    run?_line {} quotedThenSay 3 (by decide)
  refine ⟨rfl, by decide, report, next, hrun, hsuccess, heffects, hpauses, ?_⟩
  intro h
  have hreturn := hcomplete.mp h _ List.mem_cons_self
  cases hreturn

theorem not_all_lines_complete :
    ¬ ∀ (session : Session) (line : Line) (level : Nat), line.statements.length < level →
      ∃ report next,
        { session with registry := Standard.registry, level }.run? line.text = some (report, next) ∧
          report.isSuccess = true ∧
          line.Complete report.effects (session.newEvents next.log).pauses := by
  intro h
  obtain ⟨report, next, hrun, -, hcomplete, -⟩ := h {} quotedThenSay 3 (by decide)
  obtain ⟨report', next', hrun', -, heffects, -⟩ := run?_line_eq {} quotedThenSay 3 (by decide)
  rw [hrun] at hrun'
  cases hrun'
  rw [heffects] at hcomplete
  cases hcomplete

end Session

end LineScript
