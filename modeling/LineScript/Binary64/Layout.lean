import LineScript.Binary64.Shortest
import LineScript.Text.Blank

/-!
This module contains the text of floating point numbers: which exponents are written out, how an
exponent looks, and how a decimal text is read.
-/

namespace LineScript.Binary64

/--
The decisions about the text of a number: from the exponent `least` on and below the exponent
`beyond` it is written without an exponent, which otherwise has a sign and at least `width` digits.
-/
structure Layout where
  least : Int
  beyond : Int
  width : Nat
  deriving Repr

/--
The exponent after its mark and sign.
-/
def Layout.exponentText (layout : Layout) (exponent : Int) : Text :=
  let digits := Numeral.ofNat exponent.natAbs
  'e' :: (if exponent < 0 then '-' else '+') ::
    (List.replicate (layout.width - digits.length) '0' ++ digits)

/--
The digits with a point: `0.` and the digits times `10 ^ point`.
-/
def positional (digits : Text) (point : Int) : Text :=
  if point ≤ 0 then '0' :: '.' :: (List.replicate point.natAbs '0' ++ digits)
  else if point.toNat < digits.length then
    digits.take point.toNat ++ '.' :: digits.drop point.toNat
  else digits ++ List.replicate (point.toNat - digits.length) '0' ++ ['.', '0']

/--
The digits with a point after the first one, unless it is the only one.
-/
def scientific : Text → Text
  | first :: second :: rest => first :: '.' :: second :: rest
  | digits => digits

/--
A decimal that is not zero, without the zeros at its end.
-/
def Layout.decimalText (layout : Layout) (d : Decimal) : Text :=
  let written := Numeral.ofNat d.digits
  let digits := Text.dropTail (· = '0') written
  let point := d.exponent + written.length
  let exponent := point - 1
  if layout.least ≤ exponent && exponent < layout.beyond then positional digits point
  else scientific digits ++ layout.exponentText exponent

/--
The text of a number, by its shortest decimal.
-/
def Layout.text (layout : Layout) : Binary64 → Text
  | .nan => ['n', 'a', 'n']
  | .infinite negative => sign negative ['i', 'n', 'f']
  | .finite negative mantissa exponent =>
    sign negative <|
      if mantissa = 0 then ['0', '.', '0'] else layout.decimalText (shortest mantissa exponent)
where
  /--
  A minus sign in front of a negative number.
  -/
  sign (negative : Bool) (t : Text) : Text := if negative then '-' :: t else t

/--
The number nearest to `digits * 10 ^ exponent`, infinite if it is beyond the largest one. An exponent
beyond all numbers is not computed with.
-/
def ofDecimal (negative : Bool) (digits : Text) (exponent : Int) : Binary64 :=
  let n := Numeral.toNat digits
  let magnitude :=
    if n = 0 then some (.finite false 0 minExponent)
    else if 400 < exponent then none
    else if exponent + digits.length < -400 then some (.finite false 0 minExponent)
    else
      let (num, den) := power 10 exponent
      ofRatio (n * num) den
  let positive := magnitude.getD (.infinite false)
  if negative then positive.neg else positive

/--
Read a decimal text: a sign, digits, a point and digits, and an exponent, of which only one row of
digits is necessary; or the text of an infinite number or of no number.
-/
def read? : Text → Option Binary64
  | '-' :: t => magnitude? true t
  | '+' :: t => magnitude? false t
  | t => magnitude? false t
where
  /--
  The text after the sign.
  -/
  magnitude? (negative : Bool) (t : Text) : Option Binary64 :=
    if t = ['i', 'n', 'f'] then some (.infinite negative)
    else if t = ['n', 'a', 'n'] then some .nan
    else
      let (whole, rest) := t.span Text.isDigit
      let (fraction, rest) :=
        match rest with
        | '.' :: rest => rest.span Text.isDigit
        | rest => ([], rest)
      let exponent? :=
        match rest with
        | [] => some 0
        | 'e' :: rest | 'E' :: rest => exponent? rest
        | _ => none
      if whole.isEmpty && fraction.isEmpty then none
      else
        exponent?.map fun exponent =>
          ofDecimal negative (whole ++ fraction) (exponent - fraction.length)
  /--
  An exponent: digits after an optional sign.
  -/
  exponent? (t : Text) : Option Int :=
    let digits :=
      match t with
      | '-' :: rest | '+' :: rest => rest
      | rest => rest
    if Numeral.isNumeral digits then some (Numeral.toInt t) else none

end LineScript.Binary64
