import LineScript.Value.Equal
import LineScript.Value.Show
import LineScript.Yaml.Timestamp

/-!
This module contains the data that a settings file holds, and its text.
-/

namespace LineScript.Yaml

/--
The data in a settings file.
-/
inductive Node
  | scalar (value : Value)
  | time (t : Timestamp)
  | bytes (content : List UInt8)
  | list (items : List Node)
  | pair (first second : Node)
  /-- The keys differ from each other. -/
  | map (entries : List (Node × Node))
  | set (members : List Node)
  /-- A list or a map that this is inside of. -/
  | cycle (isMap : Bool)
  deriving Inhabited

namespace Node

/--
The name of the type of some data, for messages.
-/
def typeName : Node → Text
  | .scalar .null => "NoneType".toList
  | .scalar (.bool _) => "bool".toList
  | .scalar (.int _) => "int".toList
  | .scalar (.float _) => "float".toList
  | .scalar _ => "str".toList
  | .time t => t.typeName
  | .bytes _ => "bytes".toList
  | .list _ => "list".toList
  | .pair .. => "tuple".toList
  | .map _ => "dict".toList
  | .set _ => "set".toList
  | .cycle isMap => if isMap then "dict".toList else "list".toList

/--
The full name of the type of some data, for messages.
-/
def fullTypeName : Node → Text
  | .time t => t.fullTypeName
  | node => node.typeName

/--
Is the data something that a condition takes for true?
-/
def truthy : Node → Bool
  | .scalar value => value.truthy
  | .bytes content => !content.isEmpty
  | .list items => !items.isEmpty
  | .map entries => !entries.isEmpty
  | .set members => !members.isEmpty
  | .time _ | .pair .. | .cycle _ => true

/--
Is there no value?
-/
def isNull : Node → Bool
  | .scalar .null => true
  | _ => false

/--
The number that the data is, if it is one.
-/
def quantity? : Node → Option Quantity
  | .scalar value => value.quantity?
  | _ => none

/--
The text that the data is, if it is one.
-/
def ownText? : Node → Option Text
  | .scalar (.text t) => some t
  | _ => none

/--
Are two keys the same?
-/
def sameKey : Node → Node → Bool
  | .scalar value, .scalar value' => value.equal value'
  | .time t, .time t' => t = t'
  | .bytes b, .bytes b' => b = b'
  | _, _ => false

/--
Bytes as they are shown in a message: ASCII characters for themselves, others by their number.
-/
def bytesLiteral (content : List UInt8) : Text :=
  let chars : Text := content.map fun b => Char.ofNat b.toNat
  let quote := Text.literalQuote chars
  let shown (c : Char) : Text :=
    if 0x7e < c.toNat then '\\' :: 'x' :: Text.hex 2 c.toNat else Text.literalChar quote c
  'b' :: quote :: chars.flatMap shown ++ [quote]

mutual

/--
The data as it is shown in a message.
-/
def literal? : Node → Option Text
  | .scalar value => value.literal?
  | .time t => some t.literal
  | .bytes content => some (bytesLiteral content)
  | .list items => do
    return '[' :: Text.join ", ".toList (← literals? items) ++ [']']
  | .pair first second => do
    return '(' :: (← literal? first) ++ ", ".toList ++ (← literal? second) ++ [')']
  | .map entries => do
    return '{' :: Text.join ", ".toList (← entryLiterals? entries) ++ ['}']
  | .set [] => some "set()".toList
  | .set members => do
    return '{' :: Text.join ", ".toList (← literals? members) ++ ['}']
  | .cycle isMap => some (if isMap then "\x7b...\x7d".toList else "[...]".toList)

/--
The items of a list as they are shown in a message.
-/
def literals? : List Node → Option (List Text)
  | [] => some []
  | item :: items => do
    return (← literal? item) :: (← literals? items)

/--
The entries of a map as they are shown in a message.
-/
def entryLiterals? : List (Node × Node) → Option (List Text)
  | [] => some []
  | (key, node) :: entries => do
    let entry := (← literal? key) ++ ": ".toList ++ (← literal? node)
    return entry :: (← entryLiterals? entries)

end

/--
The text that the data stands for.
-/
def text? : Node → Option Text
  | .scalar value => value.text?
  | .time t => some t.text
  | node => node.literal?

/--
Put an entry into a map. If there is one with the same key, only its data is replaced.
-/
def insert (key node : Node) : List (Node × Node) → List (Node × Node)
  | [] => [(key, node)]
  | (key', node') :: entries =>
    if key.sameKey key' then (key', node) :: entries else (key', node') :: insert key node entries

/--
The entries of a map. The last one with each key counts.
-/
def distinct (entries : List (Node × Node)) : List (Node × Node) :=
  entries.foldl (fun map (key, node) => insert key node map) []

end Node

end LineScript.Yaml
