import LineScript.Value.Basic

/-!
This module contains what a run does to the world: the events of a run in the order in which they
happen.
-/

namespace LineScript

/--
Where the message of an effect goes.
-/
inductive Topic
  | stdout
  | stderr
  /-- A channel that the standard commands do not use. -/
  | channel (name : Text)
  deriving DecidableEq, Repr, Inhabited

/--
A message that a run sends.
-/
structure Effect where
  topic : Topic
  message : Text
  deriving DecidableEq, Repr, Inhabited

/--
What a run does to the world.
-/
inductive Event
  /-- A message is sent. -/
  | effect (e : Effect)
  /-- A wait for a number of seconds. -/
  | pause (seconds : Binary64)
  /-- Text for the one who watches the run. -/
  | trace (t : Text)
  deriving DecidableEq, Repr, Inhabited

namespace Event

/--
The message that is sent, if one is.
-/
def effect? : Event → Option Effect
  | .effect e => some e
  | _ => none

/--
The number of seconds that is waited for, if any.
-/
def pause? : Event → Option Binary64
  | .pause seconds => some seconds
  | _ => none

/--
The text for the one who watches, if there is any.
-/
def trace? : Event → Option Text
  | .trace t => some t
  | _ => none

end Event

/--
The events of a run, the first one first.
-/
abbrev Log := Array Event

namespace Log

/--
The messages that were sent.
-/
def effects (log : Log) : List Effect := log.toList.filterMap Event.effect?

/--
The waits that were made.
-/
def pauses (log : Log) : List Binary64 := log.toList.filterMap Event.pause?

/--
All text for the one who watches.
-/
def trace (log : Log) : Text := (log.toList.filterMap Event.trace?).flatten

end Log

end LineScript
