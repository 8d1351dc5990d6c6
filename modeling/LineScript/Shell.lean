import LineScript.Config
import LineScript.Session
import LineScript.Text.Blank

/-!
This module contains the shell. It runs the lines of a file, or those that someone types at its
prompt. What it writes is a list of outputs, so that it can be run without writing anything.
-/

namespace LineScript.Shell

/--
What the shell does to the world.
-/
inductive Output
  /-- Text for the standard output. -/
  | out (t : Text)
  /-- Text for the standard error. -/
  | err (t : Text)
  /-- A wait for a number of seconds. -/
  | wait (seconds : Binary64)
  deriving DecidableEq, Repr, Inhabited

/--
Why a script file could not be read.
-/
inductive FileProblem
  | notText
  | isDirectory
  | notDirectory
  /-- The path is too long. -/
  | tooLong
  /-- There can be no such path. -/
  | impossible
  deriving DecidableEq, Repr, Inhabited

/--
The words for a problem with a file.
-/
def FileProblem.message : FileProblem → Text
  | .notText => "the file is not UTF-8".toList
  | .isDirectory => "the file is a directory".toList
  | .notDirectory => "a part of the path is not a directory".toList
  | .tooLong => "the path is too long".toList
  | .impossible => "embedded null byte".toList

/--
How the shell ends.
-/
inductive Ending
  | exit (code : Nat)
  | badConfig (problem : Config.Problem)
  | badFile (problem : FileProblem)
  /-- The banner cannot be written. -/
  | badBanner
  /-- The prompt is not a text. -/
  | badPrompt (typeName : Text)
  /-- A line went deeper than is allowed. -/
  | exhausted
  deriving DecidableEq, Repr, Inhabited

/--
The words for an ending that the shell has said nothing about yet.
-/
def Ending.message? : Ending → Option Text
  | .exit _ => none
  | .badConfig problem => some problem.message
  | .badFile problem => some problem.message
  | .badBanner => some Failure.unprintable.message
  | .badPrompt typeName =>
    some ("string argument expected, got '".toList ++ typeName ++ ['\''])
  | .exhausted => some "the line goes too deep".toList

/--
What the shell did, and how it ended.
-/
structure Outcome where
  outputs : List Output
  ending : Ending
  deriving Repr, Inhabited

/--
Some outputs, and then an outcome.
-/
def Outcome.after (outputs : List Output) (outcome : Outcome) : Outcome :=
  { outcome with outputs := outputs ++ outcome.outputs }

/--
A line for the standard error.
-/
def errLine (t : Text) : Output := .err (t ++ ['\n'])

/--
The output for an event of a run: each message is a line.
-/
def ofEvent : Event → Output
  | .effect ⟨.stderr, message⟩ => errLine message
  | .effect ⟨_, message⟩ => .out (message ++ ['\n'])
  | .pause seconds => .wait seconds
  | .trace t => .err t

/--
The session that settings ask for.
-/
def session (config : Config) : Session := { tracing := config.debug.truthy }

/--
Run a line: what it writes, with the problem if there is one, and whether it came to its end.
-/
def runLine? (session : Session) (line : Text) : Option (List Output × Bool × Session) :=
  (session.run? line).map fun (report, next) =>
    let events := (session.newEvents next.log).toList.map ofEvent
    let problem := if report.isSuccess then [] else [errLine report.format]
    (events ++ problem, report.isSuccess, next)

/--
Run the lines of a file up to the first problem. Lines without text are left out.
-/
def runLines (session : Session) : List Text → Outcome
  | [] => ⟨[], .exit 0⟩
  | line :: lines =>
    if Text.isBlankLine line then runLines session lines
    else
      match runLine? session line with
      | none => ⟨[], .exhausted⟩
      | some (outputs, true, session) => (runLines session lines).after outputs
      | some (outputs, false, _) => ⟨outputs, .exit 1⟩

/--
Run the file that an argument names.
-/
def runFile (config : Config) (argument : Text) : Entry → Outcome
  | .absent => ⟨[errLine ("Error: file not found: ".toList ++ argument)], .exit 1⟩
  | .blocked => ⟨[], .badFile .notDirectory⟩
  | .tooLong => ⟨[], .badFile .tooLong⟩
  | .impossible => ⟨[], .badFile .impossible⟩
  | .directory => ⟨[], .badFile .isDirectory⟩
  | .file none => ⟨[], .badFile .notText⟩
  | .file (some content) =>
    runLines (session config) (Text.lines (Text.normalizeNewlines content))

/--
What comes from the one who types.
-/
inductive Input
  /-- A line, with the line end that it may have. -/
  | line (t : Text)
  | endOfInput
  | interrupt
  deriving DecidableEq, Repr, Inhabited

/--
What is written when the shell starts, if it can be.
-/
def welcome? (config : Config) : Option (List Output) :=
  if config.banner.truthy then config.banner.text?.map fun t => [.out (t ++ ['\n'])] else some []

/--
What is written when the shell starts, and the ending if it cannot go on from there.
-/
def opening (config : Config) : List Output × Option Ending :=
  match welcome? config, config.prompt.ownText? with
  | none, _ => ([], some .badBanner)
  | some outputs, none => (outputs, some (.badPrompt config.prompt.fullTypeName))
  | some outputs, some _ => (outputs, none)

/--
What is written before a line is read.
-/
def prompt (config : Config) : List Output := [.out (config.prompt.ownText?.getD [])]

/--
Answer an input. There is a session to go on with, or an ending.
-/
def respond (config : Config) (session : Session) : Input → List Output × (Session ⊕ Ending)
  | .endOfInput => ([.out ['\n']], .inr (.exit 0))
  | .interrupt => ([.out "\nExiting.\n".toList], .inr (.exit 0))
  | .line raw =>
    let line := Text.dropTail (· = '\n') raw
    if Text.trim line = "exit".toList then ([], .inr (.exit 0))
    else
      match runLine? session line with
      | none => ([], .inr .exhausted)
      | some (outputs, success, session) =>
        if !success && config.exitOnError.truthy then (outputs, .inr (.exit 1))
        else (outputs, .inl session)

/--
Answer inputs one after another. After the last one, the shell ends.
-/
def interact (config : Config) (session : Session) : List Input → Outcome
  | [] => ⟨[], .exit 0⟩
  | input :: inputs =>
    match respond config session input with
    | (outputs, .inl session) =>
      (interact config session inputs).after (prompt config ++ outputs)
    | (outputs, .inr ending) => ⟨prompt config ++ outputs, ending⟩

/--
The inputs of someone who types a text and then ends the input, or interrupts.
-/
def inputs (typed : Text) (interrupted : Bool) : List Input :=
  (Text.inputLines typed).map .line ++ [if interrupted then .interrupt else .endOfInput]

/--
The file that the arguments name, if they do.
-/
def scriptArgument? (arguments : List Text) : Option Text :=
  arguments.head?.filter fun argument => argument.head? ≠ some '-'

/--
Run the shell with settings that were loaded.
-/
def run (config : Config) (arguments : List Text) (lookup : Path → Entry) (inputs : List Input) :
    Outcome :=
  match scriptArgument? arguments with
  | some argument => runFile config argument (lookup (Path.ofText argument))
  | none =>
    match opening config with
    | (outputs, some ending) => ⟨outputs, ending⟩
    | (outputs, none) => (interact config (session config) inputs).after outputs

/--
Load the settings and run the shell in a directory.
-/
def start (directory : Text) (environment : Environment) (arguments : List Text)
    (lookup : Path → Entry) (inputs : List Input) : Outcome :=
  let location := Config.locate none environment directory
  match Config.load location environment (lookup location.path) with
  | .error problem => ⟨[], .badConfig problem⟩
  | .ok config => run config arguments lookup inputs

namespace Outcome

/--
All text for the standard output.
-/
def stdout (outcome : Outcome) : Text :=
  outcome.outputs.flatMap fun
    | .out t => t
    | _ => []

/--
All text for the standard error.
-/
def stderr (outcome : Outcome) : Text :=
  outcome.outputs.flatMap fun
    | .err t => t
    | _ => []

/--
The waits.
-/
def waits (outcome : Outcome) : List Binary64 :=
  outcome.outputs.filterMap fun
    | .wait seconds => some seconds
    | _ => none

end Outcome

end LineScript.Shell
