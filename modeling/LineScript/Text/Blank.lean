import LineScript.Text.Basic

/-!
This module contains the white space of the Unicode standard, with the four information separators,
and what it takes to trim text by it.
-/

namespace LineScript.Text

/--
White space, as inclusive ranges of code points.
-/
def blankRanges : List (Nat × Nat) :=
  [(0x09, 0x0d), (0x1c, 0x20), (0x85, 0x85), (0xa0, 0xa0), (0x1680, 0x1680), (0x2000, 0x200a),
   (0x2028, 0x2029), (0x202f, 0x202f), (0x205f, 0x205f), (0x3000, 0x3000)]

/--
Is the character white space?
-/
def isBlank (c : Char) : Bool :=
  blankRanges.any fun (low, high) => low ≤ c.toNat && c.toNat ≤ high

/--
The text without the characters at its end that satisfy `p`.
-/
def dropTail (p : Char → Bool) (t : Text) : Text :=
  (t.reverse.dropWhile p).reverse

/--
The text without white space at its two ends.
-/
def trim (t : Text) : Text :=
  dropTail isBlank (t.dropWhile isBlank)

/--
Is there nothing but white space?
-/
def isBlankLine (t : Text) : Bool := t.all isBlank

theorem isBlank_of_isWhitespace {c : Char} (h : c.isWhitespace = true) : isBlank c = true := by
  simp only [Char.isWhitespace, Bool.or_eq_true, decide_eq_true_eq] at h
  rcases h with ((h | h) | h) | h <;> subst h <;> decide

end LineScript.Text
