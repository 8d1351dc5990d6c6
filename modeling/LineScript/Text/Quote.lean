import LineScript.Text.Hidden

/-!
This module contains the two ways in which text is shown inside a message. `Text.literal` is used
for values and traces: it picks the kind of quote and leaves visible characters alone.
`Text.ascii` is used for the names in error messages: always double quotes, ASCII only.
-/

namespace LineScript.Text

/--
The quote that surrounds a literal: a single one, unless the text has a single quote and no double
quote.
-/
def literalQuote (t : Text) : Char :=
  if t.contains '\'' && !t.contains '"' then '"' else '\''

/--
The escape of a code point, with as many digits of base sixteen as it needs: two, four or eight.
-/
def codeEscape (n : Nat) : Text :=
  if n < 0x100 then '\\' :: 'x' :: hex 2 n
  else if n < 0x10000 then '\\' :: 'u' :: hex 4 n
  else '\\' :: 'U' :: hex 8 n

/--
One character of a literal that is surrounded by `quote`.
-/
def literalChar (quote c : Char) : Text :=
  if c = '\\' || c = quote then ['\\', c]
  else if c = '\n' then ['\\', 'n']
  else if c = '\r' then ['\\', 'r']
  else if c = '\t' then ['\\', 't']
  else if isHidden c then codeEscape c.toNat
  else [c]

/--
The text as a quoted literal. Characters that cannot be seen are escaped, all others are kept.
-/
def literal (t : Text) : Text :=
  let quote := literalQuote t
  quote :: t.flatMap (literalChar quote) ++ [quote]

/--
The escape `\uXXXX` of one sixteen bit unit.
-/
def unitEscape (n : Nat) : Text :=
  '\\' :: 'u' :: hex 4 n

/--
One character in ASCII. A code point above `0xffff` is written as its pair of surrogates.
-/
def asciiChar (c : Char) : Text :=
  let n := c.toNat
  if c = '"' || c = '\\' then ['\\', c]
  else if c = '\n' then ['\\', 'n']
  else if c = '\r' then ['\\', 'r']
  else if c = '\t' then ['\\', 't']
  else if n = 0x08 then ['\\', 'b']
  else if n = 0x0c then ['\\', 'f']
  else if n < 0x20 || 0x7e < n then
    if n < 0x10000 then unitEscape n
    else
      let high := 0xd800 + (n - 0x10000) / 0x400
      let low := 0xdc00 + (n - 0x10000) % 0x400
      unitEscape high ++ unitEscape low
  else [c]

/--
The text between double quotes, in ASCII.
-/
def ascii (t : Text) : Text :=
  '"' :: t.flatMap asciiChar ++ ['"']

end LineScript.Text
