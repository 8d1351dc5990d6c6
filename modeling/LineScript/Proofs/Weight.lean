import LineScript.Cursor
import LineScript.Proofs.Tables
import LineScript.Value.Elements
import LineScript.Value.Show

/-!
This module contains the weight of text: the number of its characters that can make a run go deeper.
These are the dollar sign, which starts a substitution, and the opening brace, which is the name of
the block command. Numbers and ranges have texts without weight, and the elements of what a standard
command returns weigh at most one each.
-/

namespace LineScript

/--
The number of dollar signs and opening braces.
-/
def Text.weight (t : Text) : Nat := t.countP fun c => c == '$' || c == '{'

namespace Text

@[simp]
theorem weight_nil : weight [] = 0 := rfl

@[simp]
theorem weight_append (t u : Text) : weight (t ++ u) = weight t + weight u := List.countP_append

@[simp]
theorem weight_cons (c : Char) (t : Text) : weight (c :: t) = weight [c] + weight t :=
  weight_append [c] t

@[simp]
theorem weight_reverse (t : Text) : weight t.reverse = weight t := List.countP_reverse

theorem weight_eq_zero_iff {t : Text} : weight t = 0 ↔ ∀ c ∈ t, c ≠ '$' ∧ c ≠ '{' := by
  simp [weight, List.countP_eq_zero]

theorem weight_singleton_le (c : Char) : weight [c] ≤ 1 := List.countP_le_length

theorem weight_join {separator : Text} {parts : List Text} (hseparator : weight separator = 0)
    (hparts : ∀ part ∈ parts, weight part = 0) : weight (join separator parts) = 0 := by
  induction parts with
  | nil => rfl
  | cons part parts ih =>
    have hpart : weight part = 0 := hparts part List.mem_cons_self
    cases parts with
    | nil => simpa [join] using hpart
    | cons next parts =>
      have hrest := ih fun p hp => hparts p (List.mem_cons_of_mem part hp)
      unfold join at hrest ⊢
      rw [List.intercalate_cons_cons, weight_append, weight_append]
      omega

end Text

theorem Numeral.weight_ofNat (n : Nat) : Text.weight (ofNat n) = 0 := by
  rw [Text.weight_eq_zero_iff]
  intro c hc
  have hdigit : c.isDigit := Nat.isDigit_of_mem_toDigits (by decide) (by decide) hc
  constructor
  all_goals
    rintro rfl
    simp at hdigit

theorem Numeral.weight_ofInt (i : Int) : Text.weight (ofInt i) = 0 := by
  cases i with
  | ofNat n => exact weight_ofNat n
  | negSucc n =>
    rw [ofInt, Text.weight_cons, weight_ofNat]
    rfl

theorem Numeral.weight_of_ofInt? {i : Int} {t : Text} (h : ofInt? i = some t) :
    Text.weight t = 0 := by
  unfold ofInt? at h
  split at h
  . cases h
    exact weight_ofInt i
  . cases h

theorem Numeral.forall_of_mapM_ofInt? {P : Text → Prop} (hP : ∀ i t, ofInt? i = some t → P t)
    {is : List Int} {parts : List Text} (h : is.mapM ofInt? = some parts) :
    ∀ part ∈ parts, P part := by
  induction is generalizing parts with
  | nil =>
    cases h
    simp
  | cons i is ih =>
    rw [List.mapM_cons] at h
    simp only [Option.bind_eq_bind, Option.bind_eq_some_iff, Option.pure_def,
      Option.some.injEq] at h
    obtain ⟨first, hfirst, rest, hrest, rfl⟩ := h
    intro part hpart
    cases List.mem_cons.mp hpart with
    | inl heq =>
      subst heq
      exact hP i _ hfirst
    | inr hmem => exact ih hrest part hmem

namespace Value

def Weighs (v : Value) (n : Nat) : Prop := ∀ t, v.text? = some t → t.weight ≤ n

/--
The kinds of values that the standard commands return.
-/
def Plain : Value → Prop
  | .null | .text _ | .range .. | .finish => True
  | _ => False

theorem Weighs.mono {v : Value} {m n : Nat} (h : v.Weighs m) (hmn : m ≤ n) : v.Weighs n := by
  intro t ht
  exact Nat.le_trans (h t ht) hmn

@[simp]
theorem weighs_text (t : Text) (n : Nat) : (Value.text t).Weighs n ↔ t.weight ≤ n := by
  simp [Weighs]

theorem weighs_null (n : Nat) : Value.null.Weighs n := by
  intro t ht
  cases ht
  exact Nat.zero_le n

theorem weighs_finish (n : Nat) : Value.finish.Weighs n := by
  intro t ht
  cases ht
  exact Nat.zero_le n

theorem weighs_int (i : Int) (n : Nat) : (Value.int i).Weighs n := by
  intro t ht
  have : t.weight = 0 := Numeral.weight_of_ofInt? (i := i) (by simpa [text?, literal?] using ht)
  omega

theorem weighs_range (start stop step : Int) (n : Nat) : (Value.range start stop step).Weighs n := by
  intro t ht
  simp only [text?, literal?, rangeText?, Option.bind_eq_bind, Option.bind_eq_some_iff,
    Option.pure_def, Option.some.injEq] at ht
  obtain ⟨parts, hparts, rfl⟩ := ht
  have hjoin : Text.weight (Text.join ", ".toList parts) = 0 :=
    Text.weight_join rfl (Numeral.forall_of_mapM_ofInt? (fun _ _ => Numeral.weight_of_ofInt?) hparts)
  rw [Text.weight_append, Text.weight_append, hjoin]
  exact Nat.zero_le n

theorem Plain.weighs_get {v : Value} (h : v.Plain) {elements : Elements}
    (helements : v.elements? = some elements) (k : Nat) : (elements.get k).Weighs 1 := by
  cases v with
  | text t =>
    simp only [elements?, Option.some.injEq] at helements
    subst helements
    simp only [Elements.ofList, List.getElem?_map]
    cases t[k]? with
    | none => exact weighs_null 1
    | some c => exact (weighs_text [c] 1).mpr (Text.weight_singleton_le c)
  | range start stop step =>
    simp only [elements?, Option.some.injEq] at helements
    subst helements
    exact weighs_int _ 1
  | null | finish => cases helements
  | bool | int | float | list => cases h

end Value

namespace Cursor

def Light (c : Cursor) : Prop := ∀ name v, c.scope.find? name = some v → v.Weighs 1

theorem Light.assign {c : Cursor} (h : c.Light) {name : Text} {v : Value} (hv : v.Weighs 1) :
    (c.assign name v).Light := by
  intro key w hw
  simp only [Cursor.assign, Table.find?_insert] at hw
  split at hw
  . cases hw
    exact hv
  . exact h key w hw

end Cursor

end LineScript
