import LineScript.Table
import LineScript.Text.Quote

/-!
This module contains registries: the handlers that are known, by name. The last write to a name wins.
A group of handlers can be bound at once; each member of the group says under which name, if any.
-/

namespace LineScript

/--
The handlers that are known, by name.
-/
abbrev Registry (α : Type) := Table α

/--
What is attached to a member of a group: the name that it is to be bound under, or something that is
no name.
-/
inductive Mark
  | name (name : Text)
  | other
  deriving DecidableEq, Repr, Inhabited

/--
A member of a group of handlers.
-/
structure Member (α : Type) where
  handler : α
  /-- Can the member be called? -/
  callable : Bool := true
  /-- The mark on the member itself. -/
  mark : Option Mark := none
  /-- The mark on what the member wraps. -/
  innerMark : Option Mark := none

/--
The name under which a member is to be bound: only if it can be called, by its own mark, or by the
inner one if it has none itself.
-/
def Member.boundName? {α : Type} (m : Member α) : Option Text :=
  if m.callable then
    match m.mark.or m.innerMark with
    | some (.name name) => some name
    | _ => none
  else
    none

namespace Registry

variable {α : Type}

/--
Write a handler under a name.
-/
def register (registry : Registry α) (name : Text) (handler : α) : Registry α :=
  registry.insert name handler

/--
The handler of a name.
-/
def lookup (registry : Registry α) (name : Text) : Option α := registry.find? name

/--
The writes that a group asks for, in the order of its fields.
-/
def writes (group : Table (Member α)) : List (Text × α) :=
  group.entries.filterMap fun (_, m) => m.boundName?.map (·, m.handler)

/--
Bind all marked members of a group, and tell the names in the order of the writes.
-/
def bind (registry : Registry α) (group : Table (Member α)) : Registry α × List Text :=
  (registry.insertAll (writes group), (writes group).map (·.1))

/--
A description of the registry.
-/
def describe (registry : Registry α) : Text :=
  "<CommandRegistry [".toList ++ Text.join ", ".toList (registry.names.map Text.literal) ++
    "]>".toList

end Registry

end LineScript
