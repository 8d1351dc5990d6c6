import LineScript.Text.Basic

/-!
This module contains the tokens of a settings file: what is between its text and its structure.
-/

namespace LineScript.Yaml

/--
A directive in front of a document.
-/
inductive Directive
  /-- The version that the document is written for. -/
  | version (major minor : Nat)
  /-- What the handle of a tag stands for. -/
  | handle (name stem : Text)
  /-- A directive without a meaning here. -/
  | other
  deriving DecidableEq, Repr, Inhabited

/--
A tag as it is written: a suffix, and the handle in front of it, if there is one.
-/
structure WrittenTag where
  handle : Option Text
  suffix : Text
  deriving DecidableEq, Repr, Inhabited

/--
A token.
-/
inductive Token
  | directive (d : Directive)
  | documentStart
  | documentEnd
  | streamEnd
  | blockListStart
  | blockMapStart
  | blockEnd
  | flowListStart
  | flowListEnd
  | flowMapStart
  | flowMapEnd
  /-- The comma between two items of a flow. -/
  | flowEntry
  /-- The dash in front of an item of a block. -/
  | blockEntry
  /-- A key follows. -/
  | key
  /-- The value of a key follows. -/
  | value
  /-- A name for the data that follows. -/
  | anchor (name : Text)
  /-- The data that a name was given to. -/
  | reference (name : Text)
  | tag (t : WrittenTag)
  /-- A scalar, and whether it is without quotes. -/
  | scalar (text : Text) (plain : Bool)
  deriving DecidableEq, Repr, Inhabited

end LineScript.Yaml
