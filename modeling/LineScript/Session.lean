import LineScript.Report
import LineScript.Standard

/-!
This module contains sessions: lines of text are run one after another, each with a cursor of its
own, and the events of all of them are kept in one log.
-/

namespace LineScript

/--
A session.
-/
structure Session where
  registry : Registry Command := Standard.registry
  /-- Is something written for the one who watches? -/
  tracing : Bool := false
  /-- How deep runs may go: the number of commands after one another and inside one another. -/
  level : Nat := 1000000000000
  /-- All events of the session so far. -/
  log : Log := #[]
  deriving Inhabited

namespace Session

/--
The evaluator of the session.
-/
def evaluator (session : Session) : Evaluator := .ofLevel session.registry session.level

/--
The state in which a line starts: at its first character, without variables.
-/
def start (session : Session) (source : Text) : State :=
  { cursor := { buffer := source }, log := session.log, tracing := session.tracing }

/--
The problem that a stopped run reports, with the cursor that it left. A fault is reported at its own
place, a failure at the cursor.
-/
def problem? (c : Cursor) : Stop → Option Problem
  | .fault fault =>
    let located := fault.locate c.buffer c.index
    some ⟨located.text, located.index, located.buffer⟩
  | .failure failure =>
    some ⟨"InternalError: ".toList ++ failure.message, some c.index, some c.buffer⟩
  | .exhausted => none

/--
The events of a log that come after those of the session.
-/
def newEvents (session : Session) (log : Log) : Log := log.extract session.log.size log.size

/--
Run a line. There is no report if the line goes deeper than the session allows.
-/
def run? (session : Session) (source : Text) : Option (Report × Session) :=
  match session.evaluator.commands (session.start source) with
  | .ok _ s =>
    some (.success (session.newEvents s.log).effects, { session with log := s.log })
  | .error stop s =>
    (problem? s.cursor stop).map fun problem =>
      (.failure (session.newEvents s.log).effects problem, { session with log := s.log })

/--
Run lines one after another.
-/
def runAll? (session : Session) : List Text → Option (List Report × Session)
  | [] => some ([], session)
  | source :: sources => do
    let (report, session) ← session.run? source
    let (reports, session) ← session.runAll? sources
    return (report :: reports, session)

end Session

end LineScript
