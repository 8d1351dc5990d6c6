import LineScript.Proofs.Arguments

/-!
This module contains the decimal text of integers. Whoever reads an integer that was written this way
gets it back.
-/

namespace LineScript

namespace Numeral

theorem ofInt_eq (i : Int) : ofInt i = (if i < 0 then ['-'] else []) ++ ofNat i.natAbs := by
  cases i with
  | ofNat n => rfl
  | negSucc n =>
    rw [if_pos (Int.negSucc_lt_zero n)]
    rfl

theorem ofNat_ne_nil (n : Nat) : ofNat n ≠ [] := Nat.toDigits_ne_nil

theorem isDigit_of_mem_ofNat {n : Nat} {c : Char} (h : c ∈ ofNat n) : Text.isDigit c = true := by
  have hdigit := Nat.isDigit_of_mem_toDigits (by decide) (by decide) h
  simpa [Text.isDigit, Char.isDigit, Char.le_def] using hdigit

theorem toNat_eq_ofDigitChars (t : Text) : toNat t = Nat.ofDigitChars 10 t 0 := by
  rw [Nat.ofDigitChars_eq_foldl]
  simp only [Nat.mul_comm 10]
  rfl

theorem toNat_ofNat (n : Nat) : toNat (ofNat n) = n := by
  rw [toNat_eq_ofDigitChars]
  exact Nat.ofDigitChars_ten_toDigits

theorem exists_ofNat_eq_cons (n : Nat) : ∃ c t, ofNat n = c :: t ∧ Text.isDigit c = true := by
  obtain ⟨c, t, hcons⟩ := List.exists_cons_of_ne_nil (ofNat_ne_nil n)
  exact ⟨c, t, hcons, isDigit_of_mem_ofNat (n := n) (hcons ▸ List.mem_cons_self)⟩

theorem dropSpaces_ofInt_append (i : Int) (t : Text) :
    Text.dropSpaces (ofInt i ++ t) = ofInt i ++ t := by
  rw [ofInt_eq]
  split
  . rfl
  . obtain ⟨c, more, hcons, hdigit⟩ := exists_ofNat_eq_cons i.natAbs
    rw [hcons]
    exact Text.dropSpaces_cons (Text.ne_of_isDigit hdigit (by decide)) _

theorem mem_ofInt {i : Int} {c : Char} (h : c ∈ ofInt i) : c = '-' ∨ Text.isDigit c = true := by
  rw [ofInt_eq] at h
  cases List.mem_append.mp h with
  | inl hsign =>
    left
    split at hsign
    . exact List.mem_singleton.mp hsign
    . cases hsign
  | inr hdigit => exact Or.inr (isDigit_of_mem_ofNat hdigit)

theorem ofInt_ne_singleton (i : Int) {c : Char} (hminus : c ≠ '-') (hdigit : Text.isDigit c = false) :
    ofInt i ≠ [c] := by
  intro heq
  have hmem : c ∈ ofInt i := heq ▸ List.mem_singleton_self c
  cases mem_ofInt hmem with
  | inl h => exact hminus h
  | inr h => exact Text.ne_of_isDigit h hdigit rfl

theorem literal?_int {i : Int} (h : (ofNat i.natAbs).length ≤ digitLimit) :
    (Value.int i).literal? = some (ofInt i) := by
  show ofInt? i = _
  exact if_pos h

end Numeral

namespace Read

open Eval

variable {reader : Eval Value}

theorem scanText_numeral {digits : Text} (hdigits : ∀ c ∈ digits, Text.isDigit c = true)
    (hne : digits ≠ []) (rest : Text) :
    ∃ d, scanText (· != '$') (judgeDigit true) {} (digits ++ ' ' :: rest) = some (d, ' ' :: rest) ∧
      d.value = some (Numeral.toNat digits) := by
  have hafter : ∀ c, (' ' :: rest).head? = some c → c ≠ '$' ∧ Text.isDigit c = false := by
    rintro c ⟨⟩
    decide
  exact ⟨_, scanText_digits_append hdigits hafter {}, by simp [Digits.ofText, hne]⟩

/--
An integer is read as it is written.
-/
theorem reads_ofInt (hreader : Verbatim reader (· != '$')) (i : Int) (rest : Text) :
    Reads (int reader {}) (Numeral.ofInt i ++ ' ' :: rest) (some i) rest.dropSpaces := by
  obtain ⟨d, hscan, hvalue⟩ := scanText_numeral (fun _ => Numeral.isDigit_of_mem_ofNat)
    (Numeral.ofNat_ne_nil i.natAbs) rest
  have hdigits : Reads (digits reader {}) (Numeral.ofNat i.natAbs ++ ' ' :: rest) d (' ' :: rest) :=
    reads_scan hreader hscan
  rw [Numeral.toNat_ofNat] at hvalue
  have hsign : Reads (token ['-']) (Numeral.ofInt i ++ ' ' :: rest) (decide (i < 0))
      (Numeral.ofNat i.natAbs ++ ' ' :: rest) := by
    rw [Numeral.ofInt_eq]
    by_cases hneg : i < 0
    . simp only [hneg, ↓reduceIte, decide_true]
      exact reads_token ['-'] _
    . obtain ⟨c, more, hcons, hdigit⟩ := Numeral.exists_ofNat_eq_cons i.natAbs
      simp only [hneg, ↓reduceIte, decide_false, List.nil_append, hcons]
      apply reads_token_absent
      intro hprefix
      have hminus : '-' = c := by simpa using hprefix
      exact Text.ne_of_isDigit hdigit (by decide) hminus.symm
  have hint : (if decide (i < 0) then -(i.natAbs : Int) else i.natAbs) = i := by
    simp only [decide_eq_true_eq]
    split <;> omega
  have htrim : Options.trim {} (Numeral.ofInt i ++ ' ' :: rest) = Numeral.ofInt i ++ ' ' :: rest :=
    Numeral.dropSpaces_ofInt_append i (' ' :: rest)
  have hlead := reads_lead_of_digits hsign hdigits
  rw [← htrim] at hlead
  have hread := reads_int hlead
  rw [Lead.int_eq_some hvalue, hint] at hread
  simp only [hvalue, Option.isNone_some, Bool.false_and, Bool.false_eq_true, ↓reduceIte] at hread
  exact hread

end Read

end LineScript
