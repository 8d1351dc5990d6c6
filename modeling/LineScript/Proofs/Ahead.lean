import LineScript.Proofs.Yields
import LineScript.Read.Char

/-!
This module contains the view of a cursor that reads are described with: the text ahead of it. A
cursor in its text moves on by taking characters off the front of the text ahead. The reads of
characters are determined by that text, and here is what each of them gives.
-/

namespace LineScript

namespace Cursor

def ahead (c : Cursor) : Text := c.buffer.drop c.index.toNat

structure InText (c : Cursor) : Prop where
  nonneg : 0 ≤ c.index
  le_length : c.index ≤ c.buffer.length

/--
The cursor `c'` is `c` after the characters `used` were taken.
-/
structure Took (c : Cursor) (used : Text) (c' : Cursor) : Prop where
  isPrefix : used <+: c.ahead
  eq_advance : c' = c.advance used.length

variable {c c' c'' : Cursor} {used used' : Text}

@[simp]
theorem advance_index (c : Cursor) (n : Int) : (c.advance n).index = c.index + n := rfl

@[simp]
theorem advance_buffer (c : Cursor) (n : Int) : (c.advance n).buffer = c.buffer := rfl

@[simp]
theorem advance_scope (c : Cursor) (n : Int) : (c.advance n).scope = c.scope := rfl

@[simp]
theorem advance_zero (c : Cursor) : c.advance 0 = c := by
  simp [advance]

@[simp]
theorem advance_advance (c : Cursor) (m n : Int) : (c.advance m).advance n = c.advance (m + n) := by
  simp [advance, Int.add_assoc]

theorem spawn_inText (c : Cursor) (t : Text) : (c.spawn t).InText := by
  constructor
  . exact Int.le_refl 0
  . exact Int.natCast_nonneg t.length

theorem ahead_advance (h : c.InText) (n : Nat) : (c.advance n).ahead = c.ahead.drop n := by
  have := h.nonneg
  simp only [ahead, advance_index, advance_buffer, List.drop_drop]
  congr 1
  omega

theorem length_ahead (h : c.InText) : (c.ahead.length : Int) = c.buffer.length - c.index := by
  have := h.nonneg
  have := h.le_length
  simp only [ahead, List.length_drop]
  omega

theorem remaining_eq (h : c.InText) : c.remaining = c.ahead.length := by
  have := length_ahead h
  unfold remaining
  omega

theorem InText.advance (h : c.InText) {n : Nat} (hn : n ≤ c.ahead.length) :
    (c.advance n).InText := by
  have := h.nonneg
  have := length_ahead h
  constructor
  . simp only [advance_index]
    omega
  . simp only [advance_index, advance_buffer]
    omega

theorem Took.refl (c : Cursor) : c.Took [] c := ⟨List.nil_prefix, by simp⟩

theorem Took.of_eq_append {rest : Text} (h : c.ahead = used ++ rest) :
    c.Took used (c.advance used.length) :=
  ⟨⟨rest, h.symm⟩, rfl⟩

theorem Took.inText (h : c.Took used c') (hc : c.InText) : c'.InText := by
  rw [h.eq_advance]
  exact hc.advance h.isPrefix.length_le

theorem Took.ahead_eq (h : c.Took used c') (hc : c.InText) : c.ahead = used ++ c'.ahead := by
  obtain ⟨rest, hrest⟩ := h.isPrefix
  rw [h.eq_advance, ahead_advance hc, ← hrest]
  simp

theorem Took.length_le (h : c.Took used c') (hc : c.InText) :
    c'.ahead.length ≤ c.ahead.length := by
  rw [h.ahead_eq hc, List.length_append]
  omega

theorem Took.length_lt (h : c.Took used c') (hc : c.InText) (hne : used ≠ []) :
    c'.ahead.length < c.ahead.length := by
  have hpos := List.length_pos_iff.mpr hne
  rw [h.ahead_eq hc, List.length_append]
  omega

theorem Took.trans (h : c.Took used c') (h' : c'.Took used' c'') (hc : c.InText) :
    c.Took (used ++ used') c'' := by
  constructor
  . rw [h.ahead_eq hc]
    exact List.prefix_append_right_inj used |>.mpr h'.isPrefix
  . rw [h'.eq_advance, h.eq_advance]
    simp

theorem Took.buffer_eq (h : c.Took used c') : c'.buffer = c.buffer := by
  rw [h.eq_advance, advance_buffer]

theorem Took.scope_eq (h : c.Took used c') : c'.scope = c.scope := by
  rw [h.eq_advance, advance_scope]

theorem Took.index_eq (h : c.Took used c') : c'.index = c.index + used.length := by
  rw [h.eq_advance, advance_index]

theorem position?_eq (h : c.InText) : c.position? = some c.index.toNat := by
  have hindex : c.index = Int.ofNat c.index.toNat := (Int.toNat_of_nonneg h.nonneg).symm
  unfold position?
  split
  . next n hn => rw [hn]; rfl
  . next n hn =>
    rw [hn] at hindex
    cases hindex

theorem atToken_eq (h : c.InText) (token : Text) : c.atToken token = token.isPrefixOf c.ahead := by
  have h0 := h.nonneg
  have h1 := h.le_length
  have hle : c.index.toNat ≤ c.buffer.length := by omega
  have hpos : ¬ c.index < 0 := by omega
  simp [atToken, ahead, Text.startsWith, hpos, hle]

end Cursor

@[simp]
theorem State.advance_zero (s : State) : s.advance 0 = s := by
  simp [State.advance]

@[simp]
theorem State.advance_advance (s : State) (m n : Int) :
    (s.advance m).advance n = s.advance (m + n) := by
  simp [State.advance]

namespace Read

open Eval Cursor

variable {s : State}

theorem peek_eq (h : s.cursor.InText) : peek s = .ok s.cursor.ahead.head? s := by
  unfold peek
  rw [cursor_bind, position?_eq h]
  simp only [ahead, List.head?_drop]
  rfl

theorem char_eq (h : s.cursor.InText) : char s = .ok s.cursor.ahead.head? (s.advance 1) := by
  unfold char
  rw [bind_of_ok (peek_eq h)]
  rfl

theorem token_eq (h : s.cursor.InText) (t : Text) :
    token t s =
      if t <+: s.cursor.ahead then .ok true (s.advance t.length) else .ok false s := by
  have hat : atToken t s = .ok (t.isPrefixOf s.cursor.ahead) s := by
    rw [← atToken_eq h]
    rfl
  unfold token
  rw [bind_of_ok hat]
  simp only [List.isPrefixOf_iff_prefix]
  split <;> rfl

theorem ahead_of_cons {c : Char} {rest : Text} (hs : s.cursor.InText)
    (hahead : s.cursor.ahead = c :: rest) :
    (s.advance 1).cursor.InText ∧ (s.advance 1).cursor.ahead = rest := by
  constructor
  . exact hs.advance (n := 1) (by simp [hahead])
  . have := ahead_advance hs 1
    rw [hahead] at this
    exact this

theorem spaces.go_eq (budget : Nat) (h : s.cursor.InText)
    (hbudget : s.cursor.ahead.length ≤ budget) :
    go budget s = .ok () (s.advance (s.cursor.ahead.takeWhile (· == ' ')).length) := by
  -- every step takes a character, so the budget lasts until something else than a space is ahead
  induction budget generalizing s with
  | zero =>
    have hnil : s.cursor.ahead = [] := List.eq_nil_of_length_eq_zero (by omega)
    rw [hnil, List.takeWhile_nil, List.length_nil, Int.natCast_zero, State.advance_zero]
    rfl
  | succ budget ih =>
    unfold go
    rw [bind_of_ok (peek_eq h)]
    cases hahead : s.cursor.ahead with
    | nil =>
      rw [List.takeWhile_nil, List.length_nil, Int.natCast_zero, State.advance_zero]
      rfl
    | cons c rest =>
      by_cases hc : c = ' '
      . have hadvance : Eval.advance 1 s = .ok () (s.advance 1) := rfl
        obtain ⟨hin, hrest⟩ := ahead_of_cons h hahead
        have hlen : rest.length ≤ budget := by
          rw [hahead] at hbudget
          simpa using hbudget
        simp only [hc, List.head?_cons, ↓reduceIte, List.takeWhile_cons, BEq.rfl, List.length_cons]
        rw [bind_of_ok hadvance, ih hin (by rw [hrest]; exact hlen), hrest, State.advance_advance]
        congr 2
        omega
      . simp only [List.head?_cons, Option.some.injEq, hc, ↓reduceIte, List.takeWhile_cons,
          beq_iff_eq, List.length_nil, Int.natCast_zero, State.advance_zero]
        rfl

theorem spaces_eq (h : s.cursor.InText) :
    spaces s = .ok () (s.advance (s.cursor.ahead.takeWhile (· == ' ')).length) := by
  have hgo := spaces.go_eq s.cursor.remaining h (Nat.le_of_eq (remaining_eq h).symm)
  exact hgo

end Read

end LineScript
