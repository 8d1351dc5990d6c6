import LineScript.Yaml.Lexer
import LineScript.Yaml.Plain
import LineScript.Yaml.Timestamp

/-!
This module contains the structure of settings files: scalars as they are written, lists and maps,
each with its type. Names that were given to data are resolved.
-/

namespace LineScript.Yaml

/--
The structure of a document.
-/
inductive Tree
  | scalar (tag : Tag) (text : Text)
  | list (tag : Tag) (items : List Tree)
  | map (tag : Tag) (entries : List (Tree × Tree))
  /-- A list or a map that this is inside of. -/
  | cycle (isMap : Bool)
  deriving Inhabited

/--
The type of a scalar without quotes.
-/
def Tag.ofPlain (t : Text) : Tag :=
  if Spelling.null t then .null
  else if Spelling.bool t then .bool
  else if Spelling.float t then .float
  else if Spelling.int t then .int
  else if TimeFields.isSpelling t then .timestamp
  else if t = ['<', '<'] then .merge
  else if t = ['='] then .default
  else .str

/--
What is left of the tokens of a document, what handles stand for, and the data that names were given
to.
-/
structure Parse where
  tokens : List Token
  handles : List (Text × Text) := []
  anchors : List (Text × Tree) := []

namespace Parse

/--
Take something from the tokens, or find a problem.
-/
abbrev Step := StateT Parse (Except Problem)

/--
The tokens do not fit together.
-/
def malformed {α : Type} : Step α := throw .malformed

/--
The next token. After the last one it is the end of the text.
-/
def peek : Step Token := return ((← get).tokens.head?).getD .streamEnd

/--
Leave out the next token.
-/
def skip : Step Unit := modify fun p => { p with tokens := p.tokens.drop 1 }

/--
Take a token if it is next.
-/
def take? (token : Token) : Step Bool := do
  if (← peek) = token then
    skip
    return true
  else return false

/--
Take a token that has to be next.
-/
def take (token : Token) : Step Unit := do
  unless ← take? token do malformed

/--
Is the next token one of some?
-/
def sees (tokens : List Token) : Step Bool := return tokens.contains (← peek)

/--
Data that is not there.
-/
def nothing : Tree := .scalar .null []

/--
A name and a type in front of data, in either order.
-/
def properties : Step (Option Text × Option WrittenTag) := do
  match ← peek with
  | .anchor name =>
    skip
    match ← peek with
    | .tag tag =>
      skip
      return (some name, some tag)
    | _ => return (some name, none)
  | .tag tag =>
    skip
    match ← peek with
    | .anchor name =>
      skip
      return (some name, some tag)
    | _ => return (none, some tag)
  | _ => return (none, none)

/--
The full name of a type. Its handle has to be known.
-/
def fullTag (tag : WrittenTag) : Step Text := do
  match tag.handle with
  | none => return tag.suffix
  | some handle =>
    match (← get).handles.lookup handle with
    | some stem => return stem ++ tag.suffix
    | none => malformed

/--
The type of a scalar. Without a name, or with an exclamation mark for one, the spelling decides.
-/
def scalarTag (tag : Option Text) (plain : Bool) (text : Text) : Tag :=
  match tag with
  | some name => if name = ['!'] then .ofPlain text else .ofText name
  | none => if plain then .ofPlain text else .str

/--
The type of a list or a map.
-/
def collectionTag (tag : Option Text) (otherwise : Tag) : Tag :=
  match tag with
  | some name => if name = ['!'] then otherwise else .ofText name
  | none => otherwise

/--
Give a name to data.
-/
def define (name : Option Text) (tree : Tree) : Step Unit := do
  if let some name := name then
    modify fun p => { p with anchors := (name, tree) :: p.anchors }

/--
A list or a map of what the given step takes, under its name.
-/
def collect (name tag : Option Text) (isMap : Bool)
    (content : Step (List Tree ⊕ List (Tree × Tree))) : Step Tree := do
  let otherwise := if isMap then Tag.map else Tag.list
  let tree :=
    match ← content with
    | .inl items => Tree.list (collectionTag tag otherwise) items
    | .inr entries => Tree.map (collectionTag tag otherwise) entries
  define name tree
  return tree

mutual

/--
Data. In a block, blocks can follow; after a key, a list may stand in the column of the key.
-/
def node (block indentless : Bool) : (fuel : Nat) → Step Tree
  | 0 => malformed
  | fuel + 1 => do
    match ← peek with
    | .reference name =>
      skip
      match (← get).anchors.lookup name with
      | some tree => return tree
      | none => malformed
    | _ =>
      let (name, written) ← properties
      let tag ← written.mapM fullTag
      if let some name := name then
        if ((← get).anchors.lookup name).isSome then malformed
      let next ← peek
      if indentless && next = .blockEntry then
        define name (.cycle false)
        collect name tag false (return .inl (← blockItems false fuel))
      else
        match next with
        | .scalar text plain =>
          skip
          let tree := .scalar (scalarTag tag plain text) text
          define name tree
          return tree
        | .flowListStart =>
          skip
          define name (.cycle false)
          collect name tag false (return .inl (← flowItems true fuel))
        | .flowMapStart =>
          skip
          define name (.cycle true)
          collect name tag true (return .inr (← flowEntries true fuel))
        | .blockListStart =>
          if !block then malformed
          skip
          define name (.cycle false)
          collect name tag false (return .inl (← blockItems true fuel))
        | .blockMapStart =>
          if !block then malformed
          skip
          define name (.cycle true)
          collect name tag true (return .inr (← blockEntries fuel))
        | _ =>
          if name.isNone && tag.isNone then malformed
          let tree := .scalar (scalarTag tag true []) []
          define name tree
          return tree

/--
The items of a list in a block. If it is not `closed` by the end of its block, it ends where no dash
follows.
-/
def blockItems (closed : Bool) : (fuel : Nat) → Step (List Tree)
  | 0 => malformed
  | fuel + 1 => do
    if ← take? .blockEntry then
      let ends :=
        if closed then [Token.blockEntry, .blockEnd] else [.blockEntry, .key, .value, .blockEnd]
      let item ← if ← sees ends then pure nothing else node true false fuel
      return item :: (← blockItems closed fuel)
    else
      if closed then take .blockEnd
      return []

/--
The entries of a map in a block. A key may be missing in front of a value, and a value after a key.
-/
def blockEntries : (fuel : Nat) → Step (List (Tree × Tree))
  | 0 => malformed
  | fuel + 1 => do
    if ← take? .key then
      let ends := [Token.key, .value, .blockEnd]
      let key ← if ← sees ends then pure nothing else node true true fuel
      let value ←
        if ← take? .value then
          if ← sees ends then pure nothing else node true true fuel
        else pure nothing
      return (key, value) :: (← blockEntries fuel)
    else
      take .blockEnd
      return []

/--
The items of a list in a flow, up to its end. A comma stands in front of each but the first. An item
with a key is a map of its own.
-/
def flowItems (first : Bool) : (fuel : Nat) → Step (List Tree)
  | 0 => malformed
  | fuel + 1 => do
    if ← take? .flowListEnd then return []
    if !first then take .flowEntry
    if ← take? .key then
      let key ←
        if ← sees [.value, .flowEntry, .flowListEnd] then pure nothing else node false false fuel
      let value ← flowValue .flowListEnd fuel
      return .map .map [(key, value)] :: (← flowItems false fuel)
    else if ← take? .flowListEnd then return []
    else
      let item ← node false false fuel
      return item :: (← flowItems false fuel)

/--
The entries of a map in a flow, up to its end. A comma stands in front of each but the first. Data
without a mark for a key is a key without a value.
-/
def flowEntries (first : Bool) : (fuel : Nat) → Step (List (Tree × Tree))
  | 0 => malformed
  | fuel + 1 => do
    if ← take? .flowMapEnd then return []
    if !first then take .flowEntry
    if ← take? .key then
      let key ←
        if ← sees [.value, .flowEntry, .flowMapEnd] then pure nothing else node false false fuel
      let value ← flowValue .flowMapEnd fuel
      return (key, value) :: (← flowEntries false fuel)
    else if ← take? .flowMapEnd then return []
    else
      let key ← node false false fuel
      return (key, nothing) :: (← flowEntries false fuel)

/--
The value of an entry in a flow that ends with a token.
-/
def flowValue (final : Token) : (fuel : Nat) → Step Tree
  | 0 => malformed
  | fuel + 1 => do
    if ← take? .value then
      if ← sees [.flowEntry, final] then return nothing else node false false fuel
    else return nothing

end

/--
What handles stand for if nothing is said about them.
-/
def usualHandles : List (Text × Text) := [(['!'], ['!']), (['!', '!'], Tag.stem)]

/--
The directives in front of a document. There may be one for the version, which has to be known, and
one for each handle.
-/
def directives : (fuel : Nat) → Bool → Step Unit
  | 0, _ => malformed
  | fuel + 1, versioned => do
    match ← peek with
    | .directive d =>
      skip
      match d with
      | .version major _ =>
        if versioned || major ≠ 1 then malformed
        directives fuel true
      | .handle name stem =>
        if ((← get).handles.lookup name).isSome then malformed
        modify fun p => { p with handles := (name, stem) :: p.handles }
        directives fuel versioned
      | .other => directives fuel versioned
    | _ => modify fun p => { p with handles := p.handles ++ usualHandles }

/--
The only document of a text.
-/
def document : Step Tree := do
  let fuel := 2 * (← get).tokens.length + 2
  let explicit ←
    match ← peek with
    | .directive _ | .documentStart => pure true
    | _ => pure false
  directives fuel false
  if explicit then take .documentStart
  let absent ←
    match ← peek with
    | .streamEnd => pure true
    | .directive _ | .documentStart | .documentEnd => pure explicit
    | _ => pure false
  let tree ← if absent then pure nothing else node true false fuel
  skipEnds (← get).tokens.length
  take .streamEnd
  return tree
where
  /--
  Leave out the marks after a document, at most `fuel` of them.
  -/
  skipEnds : (fuel : Nat) → Step Unit
    | 0 => return
    | fuel + 1 => do
      if ← take? .documentEnd then skipEnds fuel

end Parse

/--
The structure of a text.
-/
def Tree.parse (t : Text) : Except Problem Tree := do
  if !t.all isPrintable then throw .malformed
  let tokens ← Token.scan t
  let (tree, _) ← Parse.document.run { tokens }
  return tree

end LineScript.Yaml
