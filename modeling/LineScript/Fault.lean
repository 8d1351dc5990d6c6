import LineScript.Numeral
import LineScript.Text.Quote

/-!
This module contains what can go wrong in a run. A `Fault` is a mistake in the text that is run, with
its place; a `Failure` is an operation that could not be carried out; a run that stops before its end
stops for one of these, or because it was not allowed to go deeper.
-/

namespace LineScript

/--
The kinds of faults.
-/
inductive Kind
  | general
  | unknownCommand
  | unknownVariable
  | malformedArgument
  /-- The iteration that went astray, and how far it was off. -/
  | inconsistentIteration (iteration delta : Int)
  deriving DecidableEq, Repr, Inhabited

/--
The name of a kind, which comes before the message.
-/
def Kind.label : Kind → Text
  | .general => "QuillError".toList
  | .unknownCommand => "UnknownCommand".toList
  | .unknownVariable => "UnknownVariable".toList
  | .malformedArgument => "MalformedArgument".toList
  | .inconsistentIteration .. => "InconsistentIteration".toList

/--
The causes of faults.
-/
inductive Cause
  | unknownCommand (name : Text)
  | unknownVariable (name : Text)
  /-- A range has no number at all. -/
  | missingStart
  | zeroStep
  | missingLoopVariable
  | unexpectedSpecifier (got : Text)
  | unexpectedAction (got : Text)
  /-- There is no way to loop over the value that is shown. -/
  | notIterable (shown : Text)
  | missingDuration
  /-- The first iteration advanced by `first`, this one by `offset`. -/
  | unevenIteration (first offset : Int) (iteration : Nat)
  /-- A fault that a command describes itself. -/
  | custom (kind : Kind) (message : Text)
  deriving DecidableEq, Repr, Inhabited

namespace Cause

/--
The kind of fault that a cause leads to.
-/
def kind : Cause → Kind
  | .unknownCommand _ => .unknownCommand
  | .unknownVariable _ => .unknownVariable
  | .missingStart | .zeroStep | .missingLoopVariable | .unexpectedSpecifier _
  | .unexpectedAction _ | .notIterable _ | .missingDuration => .malformedArgument
  | .unevenIteration first offset iteration => .inconsistentIteration iteration (offset - first)
  | .custom kind _ => kind

/--
The words for a cause.
-/
def message : Cause → Text
  | .unknownCommand name => "Unknown command ".toList ++ Text.ascii name
  | .unknownVariable name => "Unknown variable ".toList ++ Text.ascii name
  | .missingStart => "Expected [1, 3] integers, got 0".toList
  | .zeroStep => "range step must not be 0".toList
  | .missingLoopVariable => "Expected a variable name after \"for\"".toList
  | .unexpectedSpecifier got =>
    "Unexpected specifier ".toList ++ Text.ascii got ++ ", expected \"in\"".toList
  | .unexpectedAction got =>
    "Unexpected action ".toList ++ Text.ascii got ++ ", expected \"do\"".toList
  | .notIterable shown => "Expected an iterable after \"in\", got ".toList ++ shown
  | .missingDuration => "sleep expects a duration in milliseconds".toList
  | .unevenIteration first offset iteration =>
    "Inconsistent offsets! Offset for first iteration was ".toList ++ Numeral.ofInt first ++
      ", offset for iteration ".toList ++ Numeral.ofNat iteration ++ " was ".toList ++
      Numeral.ofInt offset ++ " (".toList ++ Numeral.ofIntSigned (offset - first) ++ [')']
  | .custom _ message => message

end Cause

/--
A mistake in the text that is run. `buffer` is the text and `index` the place in it.
-/
structure Fault where
  cause : Cause
  index : Option Int := none
  buffer : Option Text := none
  deriving DecidableEq, Repr, Inhabited

namespace Fault

/--
The kind of the fault.
-/
def kind (fault : Fault) : Kind := fault.cause.kind

/--
The words for the fault, without its kind.
-/
def message (fault : Fault) : Text := fault.cause.message

/--
The kind of the fault and the words for it.
-/
def text (fault : Fault) : Text :=
  fault.kind.label ++ ": ".toList ++ fault.message

/--
Give a fault its place, unless it has one: the innermost place is the one to be shown.
-/
def locate (fault : Fault) (buffer : Text) (index : Int) : Fault :=
  match fault.buffer with
  | none => { fault with buffer := some buffer, index := some index }
  | some _ => fault

@[simp]
theorem locate_locate (fault : Fault) (buffer buffer' : Text) (index index' : Int) :
    (fault.locate buffer index).locate buffer' index' = fault.locate buffer index := by
  rcases fault with ⟨cause, i, _ | b⟩ <;> rfl

@[simp]
theorem cause_locate (fault : Fault) (buffer : Text) (index : Int) :
    (fault.locate buffer index).cause = fault.cause := by
  rcases fault with ⟨cause, i, _ | b⟩ <;> rfl

end Fault

/--
Operations that could not be carried out.
-/
inductive Failure
  /-- An index lies before the start of the text. -/
  | outOfText
  /-- An index lies before the start of any text. -/
  | outOfReach
  /-- An integer has too many digits to be written. -/
  | unprintable
  /-- A numeral has too many digits to be read. -/
  | unreadable (digits : Nat)
  /-- A quotient lies beyond the largest floating point number. -/
  | overflow
  /-- A command that does not belong to the language failed. -/
  | foreign (message : Text)
  deriving DecidableEq, Repr, Inhabited

namespace Failure

/--
What to do about too many digits.
-/
def limitAdvice : Text :=
  "; use sys.set_int_max_str_digits() to increase the limit".toList

/--
The words for a failure.
-/
def message : Failure → Text
  | .outOfText => "string index out of range".toList
  | .outOfReach => "cannot fit 'int' into an index-sized integer".toList
  | .unprintable => limit ++ limitAdvice
  | .unreadable digits =>
    limit ++ ": value has ".toList ++ Numeral.ofNat digits ++ " digits".toList ++ limitAdvice
  | .overflow => "integer division result too large for a float".toList
  | .foreign message => message
where
  /--
  The limit that was exceeded.
  -/
  limit : Text :=
    "Exceeds the limit (".toList ++ Numeral.ofNat Numeral.digitLimit ++
      " digits) for integer string conversion".toList

end Failure

/--
Why a run stops before its end.
-/
inductive Stop
  | fault (fault : Fault)
  | failure (failure : Failure)
  /-- The run was not allowed to go deeper. -/
  | exhausted
  deriving DecidableEq, Repr, Inhabited

/--
A text, a caret under the place in question, and a message, each on its own line.
-/
def render (buffer : Text) (index : Option Int) (message : Text) : Text :=
  let caret :=
    match index with
    | none => []
    | some index => [List.replicate index.toNat ' ' ++ ['^']]
  Text.join ['\n'] (buffer :: caret ++ [message])

end LineScript
