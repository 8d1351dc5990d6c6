import LineScript.Proofs.Numerals
import LineScript.Proofs.Weight

/-!
This module contains the proof that values are shown on one line. Whatever characters are in a text,
its literal has no line end, and the same holds of numbers, ranges and lists.
-/

namespace LineScript

namespace Text

/--
There is no line end in the text.
-/
def OneLine (t : Text) : Prop := '\n' ∉ t

instance (t : Text) : Decidable t.OneLine := inferInstanceAs (Decidable ('\n' ∉ t))

variable {t u : Text}

theorem oneLine_append : OneLine (t ++ u) ↔ t.OneLine ∧ u.OneLine := by
  simp [OneLine]

theorem oneLine_cons {c : Char} : OneLine (c :: t) ↔ c ≠ '\n' ∧ t.OneLine := by
  simp [OneLine, eq_comm]

theorem OneLine.of_subset (h : t.OneLine) (hsubset : u ⊆ t) : u.OneLine :=
  fun hmem => h (hsubset hmem)

theorem oneLine_flatMap {f : Char → Text} (h : ∀ c ∈ t, (f c).OneLine) : OneLine (t.flatMap f) := by
  intro hmem
  obtain ⟨c, hc, hf⟩ := List.mem_flatMap.mp hmem
  exact h c hc hf

theorem oneLine_replicate (n : Nat) {c : Char} (hc : c ≠ '\n') : OneLine (List.replicate n c) := by
  intro hmem
  exact hc (List.eq_of_mem_replicate hmem).symm

theorem mem_join {separator : Text} {parts : List Text} {c : Char} (h : c ∈ join separator parts) :
    c ∈ separator ∨ ∃ part ∈ parts, c ∈ part := by
  induction parts with
  | nil => cases h
  | cons part parts ih =>
    cases parts with
    | nil => exact Or.inr ⟨part, List.mem_cons_self, by simpa [join] using h⟩
    | cons next parts =>
      unfold join at h ih
      rw [List.intercalate_cons_cons, List.mem_append, List.mem_append] at h
      obtain (hpart | hseparator) | hrest := h
      . exact Or.inr ⟨part, List.mem_cons_self, hpart⟩
      . exact Or.inl hseparator
      . apply (ih hrest).imp_right
        rintro ⟨part', hmem, hc⟩
        exact ⟨part', List.mem_cons_of_mem part hmem, hc⟩

theorem oneLine_join {separator : Text} {parts : List Text} (hseparator : separator.OneLine)
    (hparts : ∀ part ∈ parts, part.OneLine) : OneLine (join separator parts) := by
  intro hmem
  obtain hmem | ⟨part, hpart, hmem⟩ := mem_join hmem
  . exact hseparator hmem
  . exact hparts part hpart hmem

theorem oneLine_of_isNameChar (h : ∀ c ∈ t, isNameChar c = true) : t.OneLine := by
  intro hmem
  have := h _ hmem
  contradiction

theorem oneLine_hex (width n : Nat) : OneLine (hex width n) := by
  have hdigit : ∀ k < 16, Nat.digitChar k ≠ '\n' := by decide
  induction width generalizing n with
  | zero => exact List.not_mem_nil
  | succ width ih =>
    unfold hex
    rw [oneLine_append, oneLine_cons]
    exact ⟨ih _, hdigit _ (Nat.mod_lt n (by decide)), List.not_mem_nil⟩

theorem oneLine_codeEscape (n : Nat) : OneLine (codeEscape n) := by
  unfold codeEscape
  simp only [apply_ite OneLine, oneLine_cons]
  split
  . exact ⟨by decide, by decide, oneLine_hex _ _⟩
  . split
    . exact ⟨by decide, by decide, oneLine_hex _ _⟩
    . exact ⟨by decide, by decide, oneLine_hex _ _⟩

theorem oneLine_literalChar {quote : Char} (hquote : quote ≠ '\n') (c : Char) :
    OneLine (literalChar quote c) := by
  unfold literalChar
  split
  . next hc =>
    have hne : c ≠ '\n' := by
      rintro rfl
      simp [eq_comm, hquote] at hc
    rw [oneLine_cons, oneLine_cons]
    exact ⟨by decide, hne, List.not_mem_nil⟩
  . split
    . decide
    . next hne =>
      split
      . decide
      . split
        . decide
        . split
          . exact oneLine_codeEscape _
          . rw [oneLine_cons]
            exact ⟨hne, List.not_mem_nil⟩

theorem oneLine_literal (t : Text) : OneLine (literal t) := by
  have hquote : literalQuote t ≠ '\n' := by
    unfold literalQuote
    split <;> decide
  unfold literal
  rw [oneLine_append, oneLine_cons, oneLine_cons]
  exact ⟨⟨hquote, oneLine_flatMap fun c _ => oneLine_literalChar hquote c⟩, hquote, List.not_mem_nil⟩

end Text

open Text

namespace Numeral

theorem oneLine_ofNat (n : Nat) : OneLine (ofNat n) := by
  intro hmem
  have := isDigit_of_mem_ofNat hmem
  contradiction

theorem oneLine_ofInt (i : Int) : OneLine (ofInt i) := by
  intro hmem
  cases mem_ofInt hmem with
  | inl h => cases h
  | inr h => contradiction

theorem oneLine_of_ofInt? {i : Int} {t : Text} (h : ofInt? i = some t) : t.OneLine := by
  unfold ofInt? at h
  split at h
  . cases h
    exact oneLine_ofInt i
  . cases h

end Numeral

theorem Cursor.oneLine_of_numeral? {c : Cursor} {i : Int} {t : Text} (h : c.numeral? i = some t) :
    t.OneLine := by
  unfold numeral? at h
  split at h
  . cases h
    exact Numeral.oneLine_ofInt i
  . exact Numeral.oneLine_of_ofInt? h

namespace Binary64

theorem oneLine_exponentText (layout : Layout) (exponent : Int) :
    OneLine (layout.exponentText exponent) := by
  unfold Layout.exponentText
  simp only [oneLine_cons, oneLine_append]
  refine ⟨by decide, ?_, oneLine_replicate _ (by decide), Numeral.oneLine_ofNat _⟩
  split <;> decide

theorem oneLine_positional {digits : Text} (h : digits.OneLine) (point : Int) :
    OneLine (positional digits point) := by
  unfold positional
  split
  . simp only [oneLine_cons, oneLine_append]
    exact ⟨by decide, by decide, oneLine_replicate _ (by decide), h⟩
  . split
    . simp only [oneLine_cons, oneLine_append]
      exact ⟨h.of_subset (List.take_subset _ _), by decide, h.of_subset (List.drop_subset _ _)⟩
    . simp only [oneLine_append]
      exact ⟨⟨h, oneLine_replicate _ (by decide)⟩, by decide⟩

theorem oneLine_scientific {digits : Text} (h : digits.OneLine) : OneLine (scientific digits) := by
  unfold scientific
  split
  . simp only [oneLine_cons] at h ⊢
    exact ⟨h.1, by decide, h.2⟩
  . exact h

theorem oneLine_decimalText (layout : Layout) (d : Decimal) : OneLine (layout.decimalText d) := by
  have hdigits : OneLine (dropTail (· = '0') (Numeral.ofNat d.digits)) := by
    apply (Numeral.oneLine_ofNat d.digits).of_subset
    intro c hc
    simpa using List.dropWhile_subset _ (List.mem_reverse.mp hc)
  unfold Layout.decimalText
  dsimp only
  split
  . exact oneLine_positional hdigits _
  . rw [oneLine_append]
    exact ⟨oneLine_scientific hdigits, oneLine_exponentText layout _⟩

theorem oneLine_text (layout : Layout) (x : Binary64) : OneLine (layout.text x) := by
  have hsign : ∀ negative t, OneLine t → OneLine (Layout.text.sign negative t) := by
    intro negative t ht
    unfold Layout.text.sign
    split
    . exact oneLine_cons.mpr ⟨by decide, ht⟩
    . exact ht
  cases x with
  | nan => exact (by decide : OneLine ['n', 'a', 'n'])
  | infinite negative => exact hsign _ _ (by decide)
  | finite negative mantissa exponent =>
    apply hsign
    split
    . decide
    . exact oneLine_decimalText layout _

end Binary64

namespace Value

theorem oneLine_of_rangeText? {start stop step : Int} {t : Text}
    (h : rangeText? start stop step = some t) : t.OneLine := by
  unfold rangeText? at h
  obtain ⟨parts, hparts, heq⟩ := Option.bind_eq_some_iff.mp h
  cases heq
  have hnumerals : ∀ part ∈ parts, part.OneLine :=
    Numeral.forall_of_mapM_ofInt? (fun _ _ => Numeral.oneLine_of_ofInt?) hparts
  rw [oneLine_append, oneLine_append]
  exact ⟨⟨by decide, oneLine_join (by decide) hnumerals⟩, by decide⟩

mutual

theorem oneLine_of_literal? : ∀ {v : Value} {t : Text}, v.literal? = some t → t.OneLine
  | .null, _, h => by
    cases h
    decide
  | .bool true, _, h => by
    cases h
    decide
  | .bool false, _, h => by
    cases h
    decide
  | .text t, _, h => by
    cases h
    exact oneLine_literal t
  | .int i, _, h => Numeral.oneLine_of_ofInt? h
  | .float x, _, h => by
    cases h
    exact Binary64.oneLine_text _ x
  | .range _ _ _, _, h => oneLine_of_rangeText? h
  | .list items, _, h => by
    obtain ⟨parts, hparts, heq⟩ := Option.bind_eq_some_iff.mp h
    cases heq
    rw [oneLine_append, oneLine_cons]
    exact ⟨⟨by decide, oneLine_join (by decide) (oneLine_of_literals? hparts)⟩, by decide⟩
  | .finish, _, h => by
    cases h
    decide

theorem oneLine_of_literals? : ∀ {items : List Value} {parts : List Text},
    literals? items = some parts → ∀ part ∈ parts, part.OneLine
  | [], _, h, part, hpart => by
    cases h
    cases hpart
  | item :: items, _, h, part, hpart => by
    obtain ⟨first, hfirst, hbind⟩ := Option.bind_eq_some_iff.mp h
    obtain ⟨rest, hrest, heq⟩ := Option.bind_eq_some_iff.mp hbind
    cases heq
    cases List.mem_cons.mp hpart with
    | inl hmem => exact hmem ▸ oneLine_of_literal? hfirst
    | inr hmem => exact oneLine_of_literals? hrest part hmem

end

end Value

end LineScript
