import LineScript.Proofs.Loops
import LineScript.Proofs.Quoting

/-!
This module contains the proof that any messages can be sent. A message is the argument of a command
of its own, with a backslash before each of its characters, and a semicolon stands between two
commands. The read of an argument takes the message and the semicolon after it, so the next command
starts right behind.
-/

namespace LineScript

open Eval Read

/--
The program that sends the messages one after another.
-/
def messagesSource (messages : List Text) : Text :=
  Text.join [';'] (messages.map fun message => "say ".toList ++ message.escaped)

/--
What comes after the argument of a command: the end of the text, or a semicolon and the commands that
are left.
-/
inductive EndsArgument : (after left : Text) → Prop
  | nil : EndsArgument [] []
  | semicolon (left : Text) : EndsArgument (';' :: left) left

namespace EndsArgument

variable {after left : Text} {scope : Table Value}

theorem not_name (h : EndsArgument after left) :
    ∀ c, after.head? = some c → c ≠ '{' ∧ Text.isNameChar c = false := by
  cases h with
  | nil => exact nofun
  | semicolon left =>
    rintro c ⟨⟩
    decide

theorem not_space (h : EndsArgument after left) : after.head? ≠ some ' ' := by
  cases h with
  | nil => exact nofun
  | semicolon left =>
    rw [List.head?_cons]
    decide

theorem scans (h : EndsArgument after left) (evaluator : Evaluator) (keepStop : Bool) (d : Draft)
    (hd : d.escaping = false) :
    Scans (unit evaluator) (judgeString true keepStop .never) scope d after d left := by
  cases h with
  | nil => exact scans_nil (verbatim_unit evaluator)
  | semicolon left =>
    apply (takesUnit_of_verbatim (verbatim_unit evaluator) (by decide) scope left).scans_keep
    simp [judgeString, hd]

end EndsArgument

theorem performs_say_escaped (scope : Table Value) (message : Text) {after left : Text} (level : Nat)
    (h : EndsArgument after left) (hleft : left.dropSpaces = left) :
    Performs scope (Evaluator.ofLevel Standard.registry (level + 1)).command
      ("say".toList ++ ' ' :: (message.escaped ++ after)) .null left
      [.effect ⟨.stdout, message⟩] := by
  have hlookup : Standard.registry.lookup "say".toList = some ⟨"say".toList, Standard.say⟩ := by
    rw [Standard.registry_eq]
    rfl
  have hspaces : Text.dropSpaces (message.escaped ++ after) = message.escaped ++ after :=
    dropSpaces_escaped_append message h.not_space
  have hmatcher : Reads (StringOptions.matcher { stop := some .never })
      (Text.dropSpaces (message.escaped ++ after)) .never (message.escaped ++ after) := by
    rw [hspaces]
    exact reads_pure _ _
  have hread := readsIn_string rfl hmatcher
    (scans_escaped (.ofLevel Standard.registry level) scope message rfl h.not_name rfl
      (h.scans _ _ (Draft.append {} message) rfl))
  rw [text_append_empty, hleft] at hread
  apply Evaluator.performs_command (by decide) hlookup hspaces
  exact Standard.performs_say hread

theorem messagesSource_cons (message : Text) (messages : List Text) :
    ∃ after, EndsArgument after (messagesSource messages) ∧
      messagesSource (message :: messages) = "say".toList ++ ' ' :: (message.escaped ++ after) := by
  cases messages with
  | nil =>
    refine ⟨[], .nil, ?_⟩
    simp [messagesSource, Text.join]
  | cons next messages =>
    refine ⟨_, .semicolon _, ?_⟩
    simp [messagesSource, Text.join]

theorem dropSpaces_messagesSource (messages : List Text) :
    (messagesSource messages).dropSpaces = messagesSource messages := by
  cases messages with
  | nil => rfl
  | cons message messages =>
    obtain ⟨after, -, hsource⟩ := messagesSource_cons message messages
    rw [hsource]
    rfl

theorem performs_messagesSource {scope : Table Value} (messages : List Text) (level : Nat)
    (hlevel : messages.length < level) :
    Performs scope (Evaluator.ofLevel Standard.registry level).commands (messagesSource messages) ()
      [] (messages.map fun message => .effect ⟨.stdout, message⟩) := by
  induction messages generalizing level with
  | nil =>
    obtain ⟨level, rfl⟩ : ∃ n, level = n + 1 := ⟨level - 1, by simp at hlevel; omega⟩
    exact Evaluator.performs_commands_end
  | cons message messages ih =>
    obtain ⟨level, rfl⟩ : ∃ n, level = n + 1 := ⟨level - 1, by omega⟩
    obtain ⟨after, hends, hsource⟩ := messagesSource_cons message messages
    have hsay := performs_say_escaped scope message level hends (dropSpaces_messagesSource messages)
    rw [hsource]
    exact Evaluator.performs_commands_cons rfl hsay (ih level (by simpa using hlevel))

namespace Session

theorem run?_of_performs (session : Session) {level : Nat} {source rest : Text} {events : List Event}
    (h : Performs .empty (Evaluator.ofLevel Standard.registry level).commands source () rest events) :
    ∃ next, (session.standard level).run? source =
        some (.success (events.filterMap Event.effect?), next) ∧
      (session.newEvents next.log).live = events := by
  obtain ⟨used, log, -, hcommands, hadds⟩ := h ((session.standard level).start source)
    (Cursor.spawn_inText { buffer := [] } source) rfl rfl
  have hevents : session.log.Adds events log := hadds
  have hstart : (session.standard level).evaluator.commands
      ((session.standard level).start source) = .ok () _ := hcommands
  refine ⟨{ session.standard level with log }, ?_, live_of_adds hevents⟩
  rw [← (newEvents_of_adds hevents).1]
  exact run?_of_ok hstart

/--
Any messages can be sent, whatever their characters are: the program with the escaped messages is run
without a problem, and its messages are the given ones, in order. Nothing else happens.
-/
theorem run?_messages (session : Session) (messages : List Text) (level : Nat)
    (hlevel : messages.length < level) :
    ∃ next, (session.standard level).run? (messagesSource messages) =
        some (.success (messages.map (⟨.stdout, ·⟩)), next) ∧
      (session.newEvents next.log).live = messages.map fun message => .effect ⟨.stdout, message⟩ := by
  obtain ⟨next, hrun, hlive⟩ := run?_of_performs session (performs_messagesSource messages level hlevel)
  refine ⟨next, ?_, hlive⟩
  rw [hrun]
  simp [List.filterMap_map, Function.comp_def, Event.effect?]

theorem run?_messages_dollar_empty_semicolon :
    messagesSource [" $".toList, [], ";\\".toList] = "say \\ \\$;say ;say \\;\\\\".toList ∧
      [" $".toList, [], ";\\".toList].length < 4 ∧
      ∃ next, (standard {} 4).run? "say \\ \\$;say ;say \\;\\\\".toList =
        some (.success [⟨.stdout, " $".toList⟩, ⟨.stdout, []⟩, ⟨.stdout, ";\\".toList⟩], next) := by
  obtain ⟨next, hrun, -⟩ := run?_messages {} [" $".toList, [], ";\\".toList] 4 (by decide)
  exact ⟨by decide, by decide, next, hrun⟩

end Session

end LineScript
