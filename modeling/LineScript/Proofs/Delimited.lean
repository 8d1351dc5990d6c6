import LineScript.Proofs.Literal

/-!
This module contains the common form of the reads of an integer and of a number. Both skip spaces, take
a part, give it back if it is of no use and skip spaces again, and in both the part starts with a sign
and digits.
-/

namespace LineScript.Read

open Eval

/--
Take a part between spaces, and give it back if the part says so.
-/
def delimited {α : Type} (options : Options) (part : Eval (α × Bool)) : Eval α := do
  options.spaces
  let start ← index
  let (a, back) ← part
  if back then moveTo start
  options.spaces
  return a

/--
What integers and numbers start with: an optional minus sign, and digits.
-/
structure Lead where
  negative : Bool
  digits : Digits

def lead (reader : Eval Value) (options : Options) : Eval Lead := do
  let negative ← token ['-']
  let digits ← digits reader options
  return { negative, digits }

/--
The integer, if there is a digit.
-/
def Lead.int (l : Lead) : Option Int :=
  l.digits.value.map fun n => if l.negative then -(n : Int) else n

theorem Lead.int_eq_some {negative : Bool} {d : Digits} {n : Nat} (h : d.value = some n) :
    Lead.int ⟨negative, d⟩ = some (if negative then -(n : Int) else n) := by
  unfold Lead.int
  rw [h]
  rfl

theorem int_eq_delimited (reader : Eval Value) (options : Options) :
    int reader options = delimited options (do
      let l ← lead reader options
      return (l.int, l.digits.value.isNone && l.negative && !l.digits.ended)) := by
  unfold int delimited lead
  simp only [bind_assoc, pure_bind]
  rfl

theorem float_eq_delimited (reader : Eval Value) (options : Options) :
    float reader options = delimited options (do
      let l ← lead reader options
      let number ← fraction reader options l.digits
      return (if l.negative then number.map Number.neg else number,
        number.isNone && !l.digits.ended)) := by
  unfold float delimited lead
  simp only [bind_assoc, pure_bind]

/--
The text after the spaces, if the options say that they are skipped.
-/
def Options.trim (options : Options) (t : Text) : Text :=
  if options.skipSpaces then t.dropSpaces else t

variable {α : Type} {reader : Eval Value} {options : Options} {t rest rest' : Text} {l : Lead}

theorem trim_trim (options : Options) (t : Text) :
    options.trim (options.trim t) = options.trim t := by
  unfold Options.trim
  split
  . exact Text.dropSpaces_dropSpaces t
  . rfl

theorem reads_trim (options : Options) (t : Text) : Reads options.spaces t () (options.trim t) := by
  unfold Options.trim
  split
  . next h => exact reads_options_spaces h t
  . next h =>
    unfold Options.spaces
    rw [if_neg h]
    exact reads_pure () t

theorem reads_delimited (back : Bool) {part : Eval (α × Bool)} {a : α}
    (hpart : Reads part (options.trim t) (a, back) rest) :
    Reads (delimited options part) t a (options.trim (if back then options.trim t else rest)) := by
  unfold delimited
  apply Reads.bind (reads_trim options t)
  cases back with
  | false =>
    apply reads_index_bind
    intro _
    apply Reads.bind hpart
    exact Reads.bind (reads_trim options rest) (reads_pure a _)
  | true =>
    -- the part is given back, and what is left is what is left of the text before it
    have hspaces : Reads (options.spaces >>= fun _ => pure a) (options.trim t) a
        (options.trim (options.trim t)) :=
      Reads.bind (reads_trim options _) (reads_pure a _)
    obtain ⟨used, ht, hspaces⟩ := hspaces
    refine ⟨used, ht, ?_⟩
    intro s hs hahead
    obtain ⟨used', -, hpart, -⟩ := hpart.exists_used hs hahead
    have hmove : moveTo s.cursor.index (s.advance used'.length) = .ok () s := rfl
    rw [index_bind, bind_of_ok hpart]
    exact (bind_of_ok hmove).trans (hspaces s hs hahead)

theorem reads_lead_of_digits {negative : Bool} {d : Digits} {body : Text}
    (hsign : Reads (token ['-']) t negative body) (hdigits : Reads (digits reader options) body d rest) :
    Reads (lead reader options) t ⟨negative, d⟩ rest :=
  Reads.bind hsign (Reads.bind hdigits (reads_pure _ _))

theorem reads_int (hlead : Reads (lead reader options) (options.trim t) l rest) :
    Reads (int reader options) t l.int
      (options.trim (if l.digits.value.isNone && l.negative && !l.digits.ended then options.trim t
        else rest)) := by
  rw [int_eq_delimited]
  exact reads_delimited _ (Reads.bind hlead (reads_pure _ _))

theorem reads_float {number : Option Number}
    (hlead : Reads (lead reader options) (options.trim t) l rest)
    (hfraction : Reads (fraction reader options l.digits) rest number rest') :
    Reads (float reader options) t (if l.negative then number.map Number.neg else number)
      (options.trim (if number.isNone && !l.digits.ended then options.trim t else rest')) := by
  rw [float_eq_delimited]
  exact reads_delimited _ (Reads.bind hlead (Reads.bind hfraction (reads_pure _ _)))

end LineScript.Read
