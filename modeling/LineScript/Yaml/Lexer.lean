import LineScript.Yaml.Scalar
import LineScript.Yaml.Token

/-!
This module contains the way from text to tokens. Blocks have no brackets, so the tokens that start
and end them come from the columns. What may be a key is known only when its colon is met; it has to
be on the same line and near enough, and then the tokens for it are put in front of it.
-/

namespace LineScript.Yaml

/--
A place where a key may start.
-/
structure KeyPlace where
  /-- The number of tokens in front of it. -/
  tokens : Nat
  /-- Can there be nothing but a key? -/
  required : Bool
  index : Nat
  line : Nat
  column : Nat

/--
The largest number of characters from the start of a key to its colon.
-/
def maxKeyLength : Nat := 1024

/--
The state of the way from text to tokens.
-/
structure Lexer where
  source : Source
  tokens : Array Token := #[]
  /-- The column of the innermost block; `-1` outside of all blocks. -/
  indent : Int := -1
  /-- The columns of the blocks around it, the innermost one first. -/
  outer : List Int := []
  /-- The number of flows around this place. -/
  flow : Nat := 0
  /-- Can a key start here? -/
  keyAllowed : Bool := true
  /-- Where keys may have started, by the number of flows around them. -/
  places : List (Nat × KeyPlace) := []

namespace Lexer

/--
A step from text to tokens, which may find a problem.
-/
abbrev Step := StateT Lexer (Except Problem)

/--
The text is malformed.
-/
def malformed {α : Type} : Step α := throw .malformed

/--
Take something from the text.
-/
def read {α : Type} (reader : Reader α) : Step α := fun l =>
  (reader l.source).map fun (a, source) => (a, { l with source })

/--
Add a token.
-/
def push (token : Token) : Step Unit := modify fun l => { l with tokens := l.tokens.push token }

/--
Put a token in front of those that come after the first `n`.
-/
def insert (n : Nat) (token : Token) : Step Unit :=
  modify fun l =>
    { l with tokens := (l.tokens.extract 0 n).push token ++ l.tokens.extract n l.tokens.size }

/--
Say whether a key can start.
-/
def allowKey (allowed : Bool) : Step Unit := modify fun l => { l with keyAllowed := allowed }

/--
Is this place outside of all flows?
-/
def inBlock : Step Bool := return (← get).flow = 0

/--
Forget the places from which no key can come any more. It is an error if one was required.
-/
def forgetFarPlaces : Step Unit := do
  let l ← get
  let far (place : KeyPlace) : Bool :=
    place.line ≠ l.source.line || maxKeyLength < l.source.index - place.index
  if l.places.any fun (_, place) => far place && place.required then malformed
  set { l with places := l.places.filter fun (_, place) => !far place }

/--
Forget the place of a key at this level. It is an error if one was required.
-/
def forgetPlace : Step Unit := do
  let l ← get
  if ((l.places.lookup l.flow).map (·.required)).getD false then malformed
  set { l with places := l.places.filter fun (flow, _) => flow ≠ l.flow }

/--
Note that a key may start here, if it can.
-/
def notePlace : Step Unit := do
  if (← get).keyAllowed then
    forgetPlace
    modify fun l =>
      let place : KeyPlace :=
        { tokens := l.tokens.size, required := l.flow = 0 && l.indent = l.source.column
          index := l.source.index, line := l.source.line, column := l.source.column }
      { l with places := (l.flow, place) :: l.places }

/--
End the blocks that are indented deeper than a column. In a flow there are none.
-/
def unwind (column : Int) : Step Unit :=
  modify fun l =>
    if l.flow = 0 then
      let (indent, outer, tokens) := go l.indent l.outer l.tokens
      { l with indent, outer, tokens }
    else l
where
  /--
  End the innermost block, as long as it is too deep.
  -/
  go (indent : Int) : List Int → Array Token → Int × List Int × Array Token
    | [], tokens => (indent, [], tokens)
    | around :: outer, tokens =>
      if column < indent then go around outer (tokens.push .blockEnd)
      else (indent, around :: outer, tokens)

/--
Start a block in a column, unless it is there already, and tell whether it was started.
-/
def indentTo (column : Nat) : Step Bool := do
  let l ← get
  if l.indent < column then
    set { l with indent := (column : Int), outer := l.indent :: l.outer }
    return true
  else return false

/--
The end of all blocks.
-/
def endBlocks : Step Unit := do
  unwind (-1)
  forgetPlace
  allowKey false

/--
The characters of names and handles.
-/
def isNameChar (c : Char) : Bool := Text.isNameChar c || c = '-' || c = '_'

/--
The characters of the suffix of a tag, where a percent sign starts an escape.
-/
def isTagChar (c : Char) : Bool :=
  Text.isNameChar c || "-;/?:@&=+$,_.!~*'()[]%".toList.contains c

/--
The bytes that percent signs with two digits of base sixteen stand for.
-/
def tagEscapes : Reader (List UInt8) := do go (← Reader.size)
where
  /--
  Take at most `fuel` bytes.
  -/
  go : (fuel : Nat) → Reader (List UInt8)
    | 0 => return []
    | fuel + 1 => do
      if (← Reader.peek) = some '%' then
        let digits := ((← get).rest.drop 1).take 2
        match Reader.hexValue? digits with
        | some n =>
          if digits.length = 2 then
            Reader.skip 3
            return UInt8.ofNat n :: (← go fuel)
          else Reader.malformed
        | none => Reader.malformed
      else return []

/--
The suffix of a tag. Bytes that are escaped have to be text.
-/
def tagSuffix : Reader Text := do
  let suffix ← go (← Reader.size) []
  if suffix.isEmpty then Reader.malformed else return suffix
where
  /--
  Take at most `fuel` pieces after the text `done`.
  -/
  go : (fuel : Nat) → Text → Reader Text
    | 0, done => return done
    | fuel + 1, done => do
      match ← Reader.peek with
      | some c =>
        if c = '%' then
          match String.fromUTF8? ⟨(← tagEscapes).toArray⟩ with
          | some s => go fuel (done ++ s.toList)
          | none => Reader.malformed
        else if isTagChar c then
          Reader.skip 1
          go fuel (done ++ [c])
        else return done
      | none => return done

/--
The handle of a tag: an exclamation mark alone, or a name between two of them.
-/
def tagHandle : Reader Text := do
  if (← Reader.peek) ≠ some '!' then Reader.malformed
  Reader.skip 1
  if (← Reader.peek) = some ' ' then return ['!']
  let name ← Reader.takeWhile isNameChar
  if (← Reader.peek) ≠ some '!' then Reader.malformed
  Reader.skip 1
  return '!' :: name ++ ['!']

/--
A tag, with its exclamation mark next.
-/
def writtenTag : Reader WrittenTag := do
  let rest := (← get).rest.drop 1
  let tag ←
    if rest.head? = some '<' then do
      Reader.skip 2
      let suffix ← tagSuffix
      if (← Reader.peek) ≠ some '>' then Reader.malformed
      Reader.skip 1
      pure ⟨none, suffix⟩
    else if Source.isGap rest.head? then do
      Reader.skip 1
      pure ⟨none, ['!']⟩
    else if (rest.takeWhile fun c => c ≠ ' ' && !isBreak c).contains '!' then do
      let handle ← tagHandle
      pure ⟨some handle, ← tagSuffix⟩
    else do
      Reader.skip 1
      pure ⟨some ['!'], ← tagSuffix⟩
  if (← Reader.peek) = some ' ' || Source.isLineEnd (← Reader.peek) then return tag
  else Reader.malformed

/--
The name after an ampersand or an asterisk.
-/
def anchorName : Reader Text := do
  Reader.skip 1
  let name ← Reader.takeSome isNameChar
  let next ← Reader.peek
  if Source.isGap next || (next.map ("?:,]\x7d%@\x60".toList.contains ·)).getD false then return name
  else Reader.malformed

/--
A number in a directive.
-/
def directiveNumber : Reader Nat := do
  let digits ← Reader.takeSome Text.isDigit
  return digits.foldl (fun n c => n * 10 + (c.toNat - '0'.toNat)) 0

/--
A directive, with its percent sign next.
-/
def directive : Reader Directive := do
  Reader.skip 1
  let name ← Reader.takeSome isNameChar
  if !(← atPartEnd) then Reader.malformed
  let d ← content name
  Reader.skipRestOfLine
  return d
where
  /--
  Does a part of the directive end here?
  -/
  atPartEnd : Reader Bool := do
    return (← Reader.peek) = some ' ' || Source.isLineEnd (← Reader.peek)
  /--
  What the directive of a name says.
  -/
  content (name : Text) : Reader Directive := do
    if name = "YAML".toList then
      Reader.skipSpaces
      let major ← directiveNumber
      if (← Reader.peek) ≠ some '.' then Reader.malformed
      Reader.skip 1
      let minor ← directiveNumber
      if ← atPartEnd then return .version major minor else Reader.malformed
    else if name = "TAG".toList then
      Reader.skipSpaces
      let handle ← tagHandle
      if (← Reader.peek) ≠ some ' ' then Reader.malformed
      Reader.skipSpaces
      let stem ← tagSuffix
      if ← atPartEnd then return .handle handle stem else Reader.malformed
    else
      discard (Reader.takeWhile fun c => !isBreak c)
      return .other

/--
Can a scalar without quotes start here? Indicators cannot start one, but for three of them, which can
if something follows directly.
-/
def startsPlain (flow : Bool) : Text → Bool
  | [] => false
  | c :: rest =>
    let indicator := Source.isGap (some c) || "-?:,[]{}#&*!|>'\"%@\x60".toList.contains c
    let allowed := c = '-' || (!flow && (c = '?' || c = ':'))
    !indicator || (allowed && !Source.isGap rest.head?)

/--
The start of a flow.
-/
def startFlow (token : Token) : Step Unit := do
  notePlace
  modify fun l => { l with flow := l.flow + 1 }
  allowKey true
  read (Reader.skip 1)
  push token

/--
The end of a flow.
-/
def endFlow (token : Token) : Step Unit := do
  if ← inBlock then malformed
  forgetPlace
  modify fun l => { l with flow := l.flow - 1 }
  allowKey false
  read (Reader.skip 1)
  push token

/--
The dash in front of an item.
-/
def blockEntry : Step Unit := do
  if ← inBlock then
    let l ← get
    if !l.keyAllowed then malformed
    if ← indentTo l.source.column then push .blockListStart
  allowKey true
  forgetPlace
  read (Reader.skip 1)
  push .blockEntry

/--
The question mark in front of a key.
-/
def explicitKey : Step Unit := do
  if ← inBlock then
    let l ← get
    if !l.keyAllowed then malformed
    if ← indentTo l.source.column then push .blockMapStart
  allowKey (← inBlock)
  forgetPlace
  read (Reader.skip 1)
  push .key

/--
The colon in front of a value. What stands in front of it is now known to be a key, if it can be one.
-/
def value : Step Unit := do
  let l ← get
  match l.places.lookup l.flow with
  | some place =>
    set { l with places := l.places.filter fun (flow, _) => flow ≠ l.flow }
    insert place.tokens .key
    if ← inBlock then
      if ← indentTo place.column then insert place.tokens .blockMapStart
    allowKey false
  | none =>
    if ← inBlock then
      if !l.keyAllowed then malformed
      if ← indentTo l.source.column then push .blockMapStart
    allowKey (← inBlock)
    forgetPlace
  read (Reader.skip 1)
  push .value

/--
A token that may be the start of a key.
-/
def keyable (token : Reader Token) : Step Unit := do
  notePlace
  allowKey false
  push (← read token)

/--
A block of lines.
-/
def blockScalar : Step Unit := do
  allowKey true
  forgetPlace
  push (.scalar (← read (Reader.block (← get).indent)) false)

/--
A scalar without quotes.
-/
def plainScalar : Step Unit := do
  notePlace
  let l ← get
  let (text, crossed) ← read (Reader.plain (l.flow ≠ 0) (l.indent + 1))
  allowKey crossed
  push (.scalar text true)

/--
A mark between documents.
-/
def documentMark (token : Token) : Step Unit := do
  endBlocks
  read (Reader.skip 3)
  push token

/--
The tokens that start with a character, which is next.
-/
def token (c : Char) : Step Unit := do
  let s := (← get).source
  let flow := (← get).flow ≠ 0
  let gapFollows := Source.isGap (s.rest.drop 1).head?
  if c = '%' && s.column = 0 then
    endBlocks
    push (.directive (← read directive))
  else if s.column = 0 && Source.startsMark s.rest ['-', '-', '-'] then documentMark .documentStart
  else if s.column = 0 && Source.startsMark s.rest ['.', '.', '.'] then documentMark .documentEnd
  else if c = '[' then startFlow .flowListStart
  else if c = '{' then startFlow .flowMapStart
  else if c = ']' then endFlow .flowListEnd
  else if c = '}' then endFlow .flowMapEnd
  else if c = ',' then
    allowKey true
    forgetPlace
    read (Reader.skip 1)
    push .flowEntry
  else if c = '-' && gapFollows then blockEntry
  else if c = '?' && (flow || gapFollows) then explicitKey
  else if c = ':' && (flow || gapFollows) then value
  else if c = '*' then keyable (return .reference (← anchorName))
  else if c = '&' then keyable (return .anchor (← anchorName))
  else if c = '!' then keyable (return .tag (← writtenTag))
  else if (c = '|' || c = '>') && !flow then blockScalar
  else if c = '\'' || c = '"' then keyable (return .scalar (← Reader.quoted c) false)
  else if startsPlain flow s.rest then plainScalar
  else malformed

/--
Go to the next token and add it. At the end of the text the result is true.
-/
def step : Step Bool := do
  let crossed ← read Reader.skipLines
  if crossed && (← inBlock) then allowKey true
  forgetFarPlaces
  unwind (← get).source.column
  match (← get).source.rest with
  | [] =>
    endBlocks
    push .streamEnd
    return true
  | c :: _ =>
    token c
    return false

/--
Add all tokens. Each of them takes at least one character, so their number is bounded.
-/
def run : (fuel : Nat) → Step Unit
  | 0 => malformed
  | fuel + 1 => do
    unless ← step do run fuel

end Lexer

/--
The tokens of a text. A byte order mark at its start is left out.
-/
def Token.scan (t : Text) : Except Problem (List Token) := do
  let rest := if (t.head?.map isByteOrderMark).getD false then t.drop 1 else t
  let (_, l) ← (Lexer.run (rest.length + 1)).run { source := { rest } }
  return l.tokens.toList

end LineScript.Yaml
