import LineScript.Yaml.Source

/-!
This module contains the spellings of scalars: without quotes, in single or double quotes, and as a
block of lines. A line end inside the first three is folded: a single one becomes a space, and of
several all but the first are kept.
-/

namespace LineScript.Yaml.Reader

/--
A line end and those after it, folded.
-/
def fold (first breaks : Text) : Text :=
  if first ≠ ['\n'] then first ++ breaks
  else if breaks.isEmpty then [' ']
  else breaks

/--
The marks that a flow is made of.
-/
def isFlowMark (c : Char) : Bool := c = ',' || c = '[' || c = ']' || c = '{' || c = '}'

/--
The first part of a scalar without quotes: up to white space, a colon that ends a key, or, in a flow,
an indicator.
-/
def word (flow : Bool) : Text → Text
  | [] => []
  | c :: rest =>
    let colon := c = ':' &&
      (Source.isGap rest.head? || (flow && (rest.head?.map isFlowMark).getD false))
    let mark := flow && (isFlowMark c || c = '?')
    if Source.isGap (some c) || colon || mark then [] else c :: word flow rest

/--
What is between two words of a scalar without quotes, and whether there is a line end. It is nothing
if the scalar ends here.
-/
def plainGap : Reader (Text × Bool) := do
  let spaces ← takeWhile (· = ' ')
  let first ← lineBreak
  if first.isEmpty then return (spaces, false)
  else if (← get).startsDocumentMark then return ([], true)
  else return (← go (← size) first [], true)
where
  /--
  Pass at most `fuel` characters after the line end `first`; `breaks` are the line ends since.
  -/
  go : (fuel : Nat) → Text → Text → Reader Text
    | 0, first, breaks => return fold first breaks
    | fuel + 1, first, breaks => do
      if (← peek) = some ' ' then
        skip 1
        go fuel first breaks
      else
        let next ← lineBreak
        if next.isEmpty then return fold first breaks
        else if (← get).startsDocumentMark then return []
        else go fuel first (breaks ++ next)

/--
A scalar without quotes. It goes on over lines that are indented by at least `indent`, which in a
flow does not matter. The result tells whether a line end follows it.
-/
def plain (flow : Bool) (indent : Int) : Reader (Text × Bool) := do go (← size) [] [] false
where
  /--
  Take at most `fuel` words after the gap. `done` holds the pieces so far, the last one first.
  -/
  go : (fuel : Nat) → List Text → Text → Bool → Reader (Text × Bool)
    | 0, done, _, crossed => return (done.reverse.flatten, crossed)
    | fuel + 1, done, gap, crossed => do
      let taken := word flow (← get).rest
      if taken.isEmpty || taken.head? = some '#' then return (done.reverse.flatten, crossed)
      else
        skip taken.length
        let done := taken :: gap :: done
        let (gap, crossed) ← plainGap
        let outdented := !flow && (← column) < indent
        if gap.isEmpty || outdented then return (done.reverse.flatten, crossed)
        else go fuel done gap crossed

/--
The character that an escape of one letter stands for.
-/
def escape? (c : Char) : Option Char :=
  match c with
  | '0' => some (Char.ofNat 0x00)
  | 'a' => some (Char.ofNat 0x07)
  | 'b' => some (Char.ofNat 0x08)
  | 't' | '\t' => some '\t'
  | 'n' => some '\n'
  | 'v' => some (Char.ofNat 0x0b)
  | 'f' => some (Char.ofNat 0x0c)
  | 'r' => some '\r'
  | 'e' => some (Char.ofNat 0x1b)
  | ' ' => some ' '
  | '"' => some '"'
  | '\\' => some '\\'
  | '/' => some '/'
  | 'N' => some (Char.ofNat 0x85)
  | '_' => some (Char.ofNat 0xa0)
  | 'L' => some (Char.ofNat 0x2028)
  | 'P' => some (Char.ofNat 0x2029)
  | _ => none

/--
The number of digits of base sixteen after the letter of an escape.
-/
def escapeWidth? (c : Char) : Option Nat :=
  match c with
  | 'x' => some 2
  | 'u' => some 4
  | 'U' => some 8
  | _ => none

/--
The number with the given digits of base sixteen.
-/
def hexValue? (digits : Text) : Option Nat :=
  digits.foldlM (fun n c => (digit? c).map (n * 16 + ·)) 0
where
  /--
  The value of a digit.
  -/
  digit? (c : Char) : Option Nat :=
    if Text.isDigit c then some (c.toNat - '0'.toNat)
    else if 'a' ≤ c && c ≤ 'f' then some (c.toNat - 'a'.toNat + 10)
    else if 'A' ≤ c && c ≤ 'F' then some (c.toNat - 'A'.toNat + 10)
    else none

/--
The line ends after one inside quotes. White space around them is left out.
-/
def quotedBreaks : Reader Text := do go (← size) []
where
  /--
  Pass at most `fuel` lines.
  -/
  go : (fuel : Nat) → Text → Reader Text
    | 0, breaks => return breaks
    | fuel + 1, breaks => do
      if (← get).startsDocumentMark then malformed
      discard (takeWhile fun c => c = ' ' || c = '\t')
      let next ← lineBreak
      if next.isEmpty then return breaks else go fuel (breaks ++ next)

/--
An escape in double quotes, after the backslash. At the end of a line it joins the next line.
-/
def escaped : Reader Text := do
  match ← peek with
  | none => malformed
  | some c =>
    if isBreak c then
      skip 1
      quotedBreaks
    else
      skip 1
      match escape? c, escapeWidth? c with
      | some e, _ => return [e]
      | none, some width =>
        let digits := (← get).rest.take width
        match hexValue? digits with
        | some n =>
          if digits.length < width then malformed
          else if 0x80000000 ≤ n then throw .hugeCharacter
          else if 0x110000 ≤ n then throw .noCharacter
          else
            skip width
            return [Char.ofNat n]
        | none => malformed
      | none, none => malformed

/--
White space inside quotes: kept on a line, folded over a line end.
-/
def quotedGap : Reader Text := do
  let spaces ← takeWhile fun c => c = ' ' || c = '\t'
  if (← peek).isNone then malformed
  let first ← lineBreak
  if first.isEmpty then return spaces else return fold first (← quotedBreaks)

/--
A scalar in quotes, with the opening quote next. In single quotes, two of them stand for one; in
double quotes, a backslash starts an escape.
-/
def quoted (quote : Char) : Reader Text := do
  skip 1
  go (← size) []
where
  /--
  Take at most `fuel` pieces. `done` holds the pieces so far, the last one first.
  -/
  go : (fuel : Nat) → List Text → Reader Text
    | 0, _ => malformed
    | fuel + 1, done => do
      match ← peek with
      | none => malformed
      | some c =>
        if Source.isGap (some c) then go fuel ((← quotedGap) :: done)
        else if c = quote then
          skip 1
          if quote = '\'' && (← peek) = some '\'' then
            skip 1
            go fuel (['\''] :: done)
          else return done.reverse.flatten
        else if c = '\\' && quote = '"' then
          skip 1
          go fuel ((← escaped) :: done)
        else
          skip 1
          go fuel ([c] :: done)

/--
What becomes of the line ends after a block of lines: none is kept, the first one, or all.
-/
inductive Chomp
  | strip
  | clip
  | keep

/--
How a block of lines ends, if a mark says so.
-/
def chomp? : Reader (Option Chomp) := do
  match ← peek with
  | some '-' =>
    skip 1
    return some .strip
  | some '+' =>
    skip 1
    return some .keep
  | _ => return none

/--
How deep a block of lines is indented, if a digit says so.
-/
def increment? : Reader (Option Nat) := do
  match ← peek with
  | some c =>
    if c = '0' then malformed
    else if Text.isDigit c then
      skip 1
      return some (c.toNat - '0'.toNat)
    else return none
  | none => return none

/--
The first line of a block after its mark.
-/
def blockHeader : Reader (Chomp × Option Nat) := do
  let before ← chomp?
  let increment ← increment?
  let after ← if before.isNone && increment.isSome then chomp? else pure none
  let ended := (← peek) = some ' ' || Source.isLineEnd (← peek)
  if !ended then malformed
  skipRestOfLine
  return ((before.or after).getD .clip, increment)

/--
The line ends before a block whose indentation is not said, and the largest column among them and
the first line with text.
-/
def blockStart : Reader (Text × Nat) := do go (← size) [] 0
where
  /--
  Pass at most `fuel` characters.
  -/
  go : (fuel : Nat) → Text → Nat → Reader (Text × Nat)
    | 0, breaks, deepest => return (breaks, deepest)
    | fuel + 1, breaks, deepest => do
      if (← peek) = some ' ' then
        skip 1
        go fuel breaks (max deepest (← column))
      else
        let next ← lineBreak
        if next.isEmpty then return (breaks, deepest)
        else go fuel (breaks ++ next) deepest

/--
The line ends of lines without text, up to the column `indent` of a line with text.
-/
def blockBreaks (indent : Nat) : Reader Text := do go (← size) []
where
  /--
  Leave out spaces in front of the column.
  -/
  skipIndent : Reader Unit := do
    let spaces := ((← get).rest.takeWhile (· = ' ')).length
    skip (min spaces (indent - (← column)))
  /--
  Pass at most `fuel` lines.
  -/
  go : (fuel : Nat) → Text → Reader Text
    | 0, breaks => return breaks
    | fuel + 1, breaks => do
      skipIndent
      let next ← lineBreak
      if next.isEmpty then return breaks else go fuel (breaks ++ next)

/--
The text of a block of lines whose text starts in a column, the line end after it, and those after
that. In a folded block, line ends between lines that start with text are folded.
-/
def blockLines (folded : Bool) (indent : Nat) (breaks : Text) : Reader (Text × Text × Text) := do
  go (← size) [] [] breaks
where
  /--
  Does a line with text start here?
  -/
  atLine : Reader Bool := return (← column) = indent && (← peek).isSome
  /--
  Does the next character start text?
  -/
  startsText : Reader Bool := do return !(← sees fun c => c = ' ' || c = '\t')
  /--
  Take at most `fuel` lines. `done` holds the pieces so far, the last one first.
  -/
  go : (fuel : Nat) → List Text → Text → Text → Reader (Text × Text × Text)
    | 0, done, last, breaks => return (done.reverse.flatten, last, breaks)
    | fuel + 1, done, last, breaks => do
      if !(← atLine) then return (done.reverse.flatten, last, breaks)
      else
        let leading ← startsText
        let line ← takeWhile fun c => !isBreak c
        let last ← lineBreak
        let following ← blockBreaks indent
        let done := line :: breaks :: done
        if !(← atLine) then return (done.reverse.flatten, last, following)
        else
          let joined := folded && last = ['\n'] && leading && (← startsText)
          let joint := if !joined then last else if following.isEmpty then [' '] else []
          go fuel (joint :: done) last following

/--
A block of lines below data that is indented by `parent`, with its mark next.
-/
def block (parent : Int) : Reader Text := do
  let folded := (← peek) = some '>'
  skip 1
  let (chomp, increment) ← blockHeader
  let least := max (parent + 1).toNat 1
  let (breaks, indent) ←
    match increment with
    | none => do
      let (breaks, deepest) ← blockStart
      pure (breaks, max least deepest)
    | some n => do
      let indent := least + n - 1
      pure (← blockBreaks indent, indent)
  let (body, last, following) ← blockLines folded indent breaks
  match chomp with
  | .strip => return body
  | .clip => return body ++ last
  | .keep => return body ++ last ++ following

end LineScript.Yaml.Reader
