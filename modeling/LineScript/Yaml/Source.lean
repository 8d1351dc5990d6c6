import LineScript.Yaml.Problem

/-!
This module contains the text of a settings file while it is read: what is left of it, and where that
starts. A reader either takes something from it or finds that the text is malformed.
-/

namespace LineScript.Yaml

/--
The characters that end a line.
-/
def isBreak (c : Char) : Bool :=
  c = '\n' || c.toNat = 0x85 || c.toNat = 0x2028 || c.toNat = 0x2029

/--
The line end that a character stands for: the separators of Unicode are kept, others become `\n`.
-/
def breakText (c : Char) : Text :=
  if c.toNat = 0x2028 || c.toNat = 0x2029 then [c] else ['\n']

/--
The byte order mark, which takes no column.
-/
def isByteOrderMark (c : Char) : Bool := c.toNat = 0xfeff

/--
The characters that can stand in a settings file.
-/
def isPrintable (c : Char) : Bool :=
  let n := c.toNat
  n = 0x09 || n = 0x0a || n = 0x0d || (0x20 ≤ n && n ≤ 0x7e) || n = 0x85 ||
    (0xa0 ≤ n && n ≠ 0xfffe && n ≠ 0xffff)

/--
What is left of a text, and its place in the whole.
-/
structure Source where
  rest : Text
  /-- The number of characters that are left. -/
  size : Nat := rest.length
  index : Nat := 0
  line : Nat := 0
  column : Nat := 0
  deriving Inhabited

/--
Take something from a text, or find a problem.
-/
abbrev Reader := StateT Source (Except Problem)

namespace Source

/--
Is there nothing, or the end of a line?
-/
def isLineEnd : Option Char → Bool
  | none => true
  | some c => isBreak c

/--
Is there nothing, white space or the end of a line?
-/
def isGap : Option Char → Bool
  | none => true
  | some c => c = ' ' || c = '\t' || isBreak c

/--
Does the text start with a mark that white space or the end of a line follows?
-/
def startsMark (t mark : Text) : Bool :=
  t.startsWith mark && isGap (t.drop mark.length).head?

/--
Does the text start with a mark between documents?
-/
def startsDocumentMark (s : Source) : Bool :=
  startsMark s.rest ['-', '-', '-'] || startsMark s.rest ['.', '.', '.']

/--
The text without its first character.
-/
def next (s : Source) : Source :=
  match s.rest with
  | [] => s
  | c :: rest =>
    let size := s.size - 1
    let index := s.index + 1
    if isBreak c then { rest, size, index, line := s.line + 1, column := 0 }
    else
      let column := if isByteOrderMark c then s.column else s.column + 1
      { rest, size, index, line := s.line, column }

/--
The text without its first `n` characters.
-/
def drop (s : Source) : Nat → Source
  | 0 => s
  | n + 1 => s.next.drop n

end Source

namespace Reader

/--
The text is malformed.
-/
def malformed {α : Type} : Reader α := throw .malformed

/--
The next character.
-/
def peek : Reader (Option Char) := return (← get).rest.head?

/--
The column of the next character.
-/
def column : Reader Nat := return (← get).column

/--
The number of characters that are left.
-/
def size : Reader Nat := return (← get).size

/--
Is the next character one of those that satisfy `p`?
-/
def sees (p : Char → Bool) : Reader Bool := return ((← peek).map p).getD false

/--
Leave out a number of characters.
-/
def skip (n : Nat) : Reader Unit := modify (·.drop n)

/--
Take the characters up to the first one that does not satisfy `p`.
-/
def takeWhile (p : Char → Bool) : Reader Text := do
  let taken := (← get).rest.takeWhile p
  skip taken.length
  return taken

/--
Take one or more characters that satisfy `p`.
-/
def takeSome (p : Char → Bool) : Reader Text := do
  let taken ← takeWhile p
  if taken.isEmpty then malformed else return taken

/--
Leave out the spaces.
-/
def skipSpaces : Reader Unit := discard (takeWhile (· = ' '))

/--
Leave out a comment, if one is next. It goes on to the end of its line.
-/
def skipComment : Reader Unit := do
  if (← peek) = some '#' then discard (takeWhile fun c => !isBreak c)

/--
Take a line end. Elsewhere nothing is taken.
-/
def lineBreak : Reader Text := do
  match ← peek with
  | some c =>
    if isBreak c then
      skip 1
      return breakText c
    else return []
  | none => return []

/--
Go to the next character that is not a space, a comment or a line end, and tell whether it is on
another line.
-/
def skipLines : Reader Bool := do go (← size) false
where
  /--
  Pass at most `fuel` line ends.
  -/
  go : (fuel : Nat) → Bool → Reader Bool
    | 0, crossed => do
      skipSpaces
      skipComment
      return crossed
    | fuel + 1, crossed => do
      skipSpaces
      skipComment
      if (← lineBreak).isEmpty then return crossed
      else go fuel true

/--
Leave out the rest of a line, on which there may only be a comment.
-/
def skipRestOfLine : Reader Unit := do
  skipSpaces
  skipComment
  if Source.isLineEnd (← peek) then discard lineBreak else malformed

end Reader

end LineScript.Yaml
