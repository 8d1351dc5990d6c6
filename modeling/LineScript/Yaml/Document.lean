import LineScript.Text.Lines
import LineScript.Yaml.Node
import LineScript.Yaml.Number
import LineScript.Yaml.Tree

/-!
This module contains the way from the structure of a document to its data. Scalars get their values,
and the entries of merged maps are put in front of those of the map that they are merged into.
-/

namespace LineScript.Yaml

namespace Tree

mutual

/--
The number of lists and maps inside each other.
-/
def depth : Tree → Nat
  | .scalar .. => 1
  | .list _ items => depths items + 1
  | .map _ entries => entryDepths entries + 1
  | .cycle _ => 1

/--
The largest depth of some items.
-/
def depths : List Tree → Nat
  | [] => 0
  | item :: items => max (depth item) (depths items)

/--
The largest depth of some entries.
-/
def entryDepths : List (Tree × Tree) → Nat
  | [] => 0
  | (key, value) :: entries => max (max (depth key) (depth value)) (entryDepths entries)

end

/--
The entries of a map without its merges: the entries of what is merged come first, and of several
merged maps the first one counts most. At most `fuel` maps inside each other are merged.
-/
def mergedEntries : (fuel : Nat) → List (Tree × Tree) → Except Problem (List (Tree × Tree))
  | 0, _ => throw .malformed
  | fuel + 1, entries => do
    let mut merged := []
    let mut own := []
    for (key, value) in entries do
      match key with
      | .scalar .merge _ =>
        match value with
        | .map _ inner => merged := merged ++ (← mergedEntries fuel inner)
        | .list _ items =>
          let maps ← items.mapM fun
            | .map _ inner => mergedEntries fuel inner
            | _ => throw .malformed
          merged := merged ++ maps.reverse.flatten
        | _ => throw .malformed
      | .scalar .default text => own := own ++ [(.scalar .str text, value)]
      | _ => own := own ++ [(key, value)]
    return merged ++ own

/--
The text of data that is to be a scalar. A map stands for the value of its default key.
-/
def scalarText : Tree → Except Problem Text
  | .scalar _ text => return text
  | .map _ entries =>
    match entries.find? isDefault with
    | some (_, .scalar _ text) => return text
    | _ => throw .malformed
  | _ => throw .malformed
where
  /--
  Is this the entry for the value that the map stands for?
  -/
  isDefault : Tree × Tree → Bool
    | (.scalar .default _, _) => true
    | _ => false

/--
The type of data.
-/
def tag : Tree → Tag
  | .scalar tag _ => tag
  | .list tag _ => tag
  | .map tag _ => tag
  | .cycle isMap => if isMap then .map else .list

/--
The data of a scalar type; none if the type is for lists or maps.
-/
def scalarNode? (t : Tree) : Except Problem (Option Node) := do
  match t.tag with
  | .null =>
    discard t.scalarText
    return some (.scalar .null)
  | .bool => return some (.scalar (.bool (← truth (← t.scalarText))))
  | .int => return some (.scalar (.int (← integer (← t.scalarText))))
  | .float => return some (.scalar (.float (← floating (← t.scalarText))))
  | .timestamp => return some (.time (← pointInTime (← t.scalarText)))
  | .str => return some (.scalar (.text (← t.scalarText)))
  | .binary =>
    match base64? (← t.scalarText) with
    | some content => return some (.bytes content)
    | none => throw .malformed
  | .list | .map | .set | .orderedMap | .pairs => return none
  | .merge | .default | .unknown => throw .malformed

/--
What lists and maps are made of.
-/
inductive Content
  | items (items : List Tree)
  | entries (entries : List (Tree × Tree))

/--
The content of a list or a map, as its type asks for it.
-/
def content (t : Tree) : Except Problem Content := do
  match t.tag, t with
  | .list, .list _ items => return .items items
  | .map, .map _ entries | .set, .map _ entries =>
    return .entries (← mergedEntries t.depth entries)
  | .orderedMap, .list _ items | .pairs, .list _ items =>
    return .entries (← items.mapM fun
      | .map _ [entry] => return entry
      | _ => throw .malformed)
  | _, _ => throw .malformed

/--
Is this data that only an item of a list or an entry of a map can be, because it is built later?
-/
def isCollection (t : Tree) : Bool :=
  match t with
  | .cycle _ => false
  | _ => [Tag.list, .map, .set, .orderedMap, .pairs].contains t.tag

/--
Can the data be a key of a map?
-/
def canBeKey (t : Tree) : Bool :=
  match t with
  | .cycle _ => false
  | _ => !t.isCollection

/--
Check the scalars in the content of a list or a map, and tell the lists and maps in it.
-/
def checkContent (t : Tree) : Except Problem (List Tree) := do
  match ← t.content with
  | .items items =>
    for item in items do discard (checkScalar item)
    return items.filter isCollection
  | .entries entries =>
    let needsKeys := t.tag = .map || t.tag = .set
    for (key, value) in entries do
      discard (checkScalar key)
      if needsKeys && !key.canBeKey then throw .malformed
      discard (checkScalar value)
    return (entries.flatMap fun (key, value) => [key, value]).filter isCollection
where
  /--
  Check data, if it is of a scalar type.
  -/
  checkScalar (t : Tree) : Except Problem (Option Node) :=
    match t with
    | .cycle _ => return none
    | _ => t.scalarNode?

/--
Check data level by level, at most `fuel` of them: the scalars that are nearest to the root are
checked first.
-/
def checkLevels : (fuel : Nat) → List Tree → Except Problem Unit
  | 0, _ => return ()
  | fuel + 1, level => do
    let inner ← level.mapM checkContent
    checkLevels fuel inner.flatten

/--
The data of a document with at most `fuel` lists and maps inside each other.
-/
def build : (fuel : Nat) → Tree → Except Problem Node
  | 0, _ => throw .malformed
  | fuel + 1, t => do
    if let .cycle isMap := t then return .cycle isMap
    if let some node ← t.scalarNode? then return node
    match ← t.content with
    | .items items => return .list (← items.mapM (build fuel))
    | .entries entries =>
      let nodes ← entries.mapM fun (key, value) => return (← build fuel key, ← build fuel value)
      match t.tag with
      | .map => return .map (Node.distinct nodes)
      | .set => return .set ((Node.distinct nodes).map (·.1))
      | _ => return .list (nodes.map fun (key, value) => .pair key value)

end Tree

/--
The data in the text of a settings file.
-/
def parse (t : Text) : Except Problem Node := do
  let tree ← Tree.parse (Text.normalizeNewlines t)
  discard tree.scalarNode?
  Tree.checkLevels tree.depth (if tree.isCollection then [tree] else [])
  tree.build (tree.depth + 1)

end LineScript.Yaml
