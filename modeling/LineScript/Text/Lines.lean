import LineScript.Text.Basic

/-!
This module contains the two notions of a line. A source file is cut at every line boundary of the
Unicode standard; before that, the three spellings of a line end in a file become one.
-/

namespace LineScript.Text

/--
`\r\n` and a lone `\r` become `\n`.
-/
def normalizeNewlines : Text → Text
  | [] => []
  | '\r' :: '\n' :: rest => '\n' :: normalizeNewlines rest
  | c :: rest => (if c = '\r' then '\n' else c) :: normalizeNewlines rest

/--
The characters that end a line by themselves.
-/
def isLineBoundary (c : Char) : Bool :=
  (0x0a ≤ c.toNat && c.toNat ≤ 0x0d) || (0x1c ≤ c.toNat && c.toNat ≤ 0x1e) ||
    c.toNat = 0x85 || c.toNat = 0x2028 || c.toNat = 0x2029

/--
The lines of a text without their ends. The end of the text ends a line only if there is something
on it.
-/
def lines (t : Text) : List Text := go [] t
where
  /--
  `line` holds the characters of the current line, the last one first.
  -/
  go (line : Text) : Text → List Text
    | [] => if line.isEmpty then [] else [line.reverse]
    | '\r' :: '\n' :: rest => line.reverse :: go [] rest
    | c :: rest => if isLineBoundary c then line.reverse :: go [] rest else go (c :: line) rest

/--
The lines of a text, each with the `\n` that ends it; only the last one may lack it.
-/
def inputLines (t : Text) : List Text := go [] t
where
  /--
  `line` holds the characters of the current line, the last one first.
  -/
  go (line : Text) : Text → List Text
    | [] => if line.isEmpty then [] else [line.reverse]
    | c :: rest => if c = '\n' then (c :: line).reverse :: go [] rest else go (c :: line) rest

end LineScript.Text
