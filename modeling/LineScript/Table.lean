import LineScript.Text.Basic

/-!
This module contains finite maps from names to values. The entries are kept in the order of their
names by code point, so that a table has one form for each map it stands for.
-/

namespace LineScript

/--
A finite map from names to values, as a list of entries in the order of their names.
-/
structure Table (α : Type) where
  entries : List (Text × α) := []

namespace Table

variable {α : Type}

/--
The table without entries.
-/
def empty : Table α := {}

instance : Inhabited (Table α) := ⟨empty⟩

/--
Put an entry in its place. An entry of the same name is replaced.
-/
def insert (table : Table α) (name : Text) (value : α) : Table α :=
  ⟨go table.entries⟩
where
  /--
  The entries up to the place of `name` stay as they are.
  -/
  go : List (Text × α) → List (Text × α)
    | [] => [(name, value)]
    | (key, old) :: rest =>
      if name < key then (name, value) :: (key, old) :: rest
      else if name = key then (name, value) :: rest
      else (key, old) :: go rest

/--
The value of a name.
-/
def find? (table : Table α) (name : Text) : Option α :=
  table.entries.lookup name

/--
Does the name have a value?
-/
def contains (table : Table α) (name : Text) : Bool :=
  (table.find? name).isSome

/--
The names in order.
-/
def names (table : Table α) : List Text :=
  table.entries.map (·.1)

/--
The number of entries.
-/
def size (table : Table α) : Nat := table.entries.length

/--
The table after all writes of a list, the first one first.
-/
def insertAll (table : Table α) (writes : List (Text × α)) : Table α :=
  writes.foldl (fun table (name, value) => table.insert name value) table

/--
The table that the writes of a list make.
-/
def ofList (writes : List (Text × α)) : Table α :=
  empty.insertAll writes

/--
The entries of `source` written over those of `target`.
-/
def overlay (source target : Table α) : Table α :=
  target.insertAll source.entries

end Table

end LineScript
