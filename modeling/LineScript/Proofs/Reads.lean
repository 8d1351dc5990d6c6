import LineScript.Proofs.Ahead
import Mathlib.Data.List.TakeWhile

/-!
This module contains reads as a relation between texts. `Eval.Reads x t a rest` says that `x` gives
`a` when `t` is ahead, and leaves `rest` ahead. Such a read depends on nothing but the text ahead, and
does nothing but to move the cursor.
-/

namespace LineScript

def Text.dropSpaces (t : Text) : Text := t.dropWhile (· == ' ')

namespace Text

@[simp]
theorem dropSpaces_nil : dropSpaces [] = [] := rfl

@[simp]
theorem dropSpaces_space (t : Text) : dropSpaces (' ' :: t) = dropSpaces t := rfl

theorem dropSpaces_cons {c : Char} (hc : c ≠ ' ') (t : Text) : dropSpaces (c :: t) = c :: t := by
  simp [dropSpaces, hc]

@[simp]
theorem dropSpaces_replicate (n : Nat) (t : Text) :
    dropSpaces (List.replicate n ' ' ++ t) = dropSpaces t := by
  induction n with
  | zero => rfl
  | succ n ih => exact ih

theorem dropSpaces_spaces (n : Nat) : dropSpaces (List.replicate n ' ') = [] := by
  have h := dropSpaces_replicate n []
  rw [List.append_nil] at h
  exact h

theorem dropSpaces_append {tail : Text} (htail : dropSpaces tail = tail) (t : Text) :
    dropSpaces (t ++ tail) = dropSpaces t ++ tail := by
  induction t with
  | nil => simpa using htail
  | cons c t ih =>
    by_cases hc : c = ' '
    . subst hc
      exact ih
    . rw [List.cons_append, dropSpaces_cons hc, dropSpaces_cons hc, List.cons_append]

theorem eq_false_of_head?_dropWhile {p : Char → Bool} {t : Text} {c : Char}
    (h : (t.dropWhile p).head? = some c) : p c = false := by
  have hnot := List.head?_dropWhile_not p t
  rw [h] at hnot
  exact hnot

theorem head?_dropSpaces (t : Text) : (dropSpaces t).head? ≠ some ' ' := by
  intro h
  have hspace := eq_false_of_head?_dropWhile h
  cases hspace

theorem dropSpaces_of_head? {t : Text} (h : t.head? ≠ some ' ') : dropSpaces t = t :=
  List.dropWhile_beq_eq_self_of_head?_ne h

@[simp]
theorem dropSpaces_dropSpaces (t : Text) : dropSpaces (dropSpaces t) = dropSpaces t :=
  dropSpaces_of_head? (head?_dropSpaces t)

theorem eq_replicate_append_dropSpaces (t : Text) :
    ∃ n, t = List.replicate n ' ' ++ t.dropSpaces := by
  refine ⟨(t.takeWhile (· == ' ')).length, ?_⟩
  have hspaces : ∀ c ∈ t.takeWhile (· == ' '), c = ' ' := by
    intro c hc
    simpa using List.mem_takeWhile_imp hc
  rw [← List.eq_replicate_of_mem hspaces]
  exact List.takeWhile_append_dropWhile.symm

theorem mem_of_mem_dropSpaces {c : Char} {t : Text} (h : c ∈ dropSpaces t) : c ∈ t :=
  (List.dropWhile_sublist _).mem h

end Text

theorem Cursor.advance_of_eq_append {s : State} {used rest : Text} (hs : s.cursor.InText)
    (hahead : s.cursor.ahead = used ++ rest) :
    (s.advance used.length).cursor.InText ∧ (s.advance used.length).cursor.ahead = rest := by
  have htook : s.cursor.Took used (s.advance used.length).cursor := Took.of_eq_append hahead
  refine ⟨htook.inText hs, ?_⟩
  rw [htook.ahead_eq hs] at hahead
  exact List.append_cancel_left hahead

namespace Eval

open Cursor

variable {α β : Type} {t rest rest' : Text} {a : α} {b : β}

/--
With the text `t` ahead the computation gives `a` and leaves `rest` ahead. It does nothing else.
-/
def Reads (x : Eval α) (t : Text) (a : α) (rest : Text) : Prop :=
  ∃ used, t = used ++ rest ∧
    ∀ s : State, s.cursor.InText → s.cursor.ahead = t → x s = .ok a (s.advance used.length)

theorem Reads.exists_used {x : Eval α} (h : Reads x t a rest) {s : State} (hs : s.cursor.InText)
    (hahead : s.cursor.ahead = t) :
    ∃ used, t = used ++ rest ∧ x s = .ok a (s.advance used.length) ∧
      (s.advance used.length).cursor.InText ∧ (s.advance used.length).cursor.ahead = rest := by
  obtain ⟨used, rfl, hx⟩ := h
  exact ⟨used, rfl, hx s hs hahead, advance_of_eq_append hs hahead⟩

theorem reads_pure (a : α) (t : Text) : Reads (pure a) t a t := by
  refine ⟨[], rfl, ?_⟩
  intro s _ _
  rw [List.length_nil, Int.natCast_zero, State.advance_zero]
  rfl

theorem Reads.bind {x : Eval α} {f : α → Eval β} (hx : Reads x t a rest)
    (hf : Reads (f a) rest b rest') : Reads (x >>= f) t b rest' := by
  obtain ⟨used, ht, hx⟩ := hx
  obtain ⟨used', rfl, hf⟩ := hf
  refine ⟨used ++ used', by rw [ht, List.append_assoc], ?_⟩
  intro s hs hahead
  obtain ⟨used'', ht', hx', hs', hrest⟩ :=
    Reads.exists_used ⟨used, ht, hx⟩ hs hahead
  obtain rfl : used'' = used := List.append_cancel_right (ht'.symm.trans ht)
  rw [bind_of_ok hx', hf _ hs' hrest, State.advance_advance, List.length_append]
  rfl

theorem reads_index_bind {f : Int → Eval β} (h : ∀ i, Reads (f i) t b rest) :
    Reads (index >>= f) t b rest := by
  obtain ⟨used, ht, -⟩ := h 0
  refine ⟨used, ht, ?_⟩
  intro s hs hahead
  obtain ⟨used', ht', hf⟩ := h s.cursor.index
  rw [index_bind, hf s hs hahead,
    List.append_cancel_right (ht'.symm.trans ht)]

end Eval

namespace Read

open Eval Cursor

theorem reads_spaces (t : Text) : Reads spaces t () t.dropSpaces := by
  refine ⟨t.takeWhile (· == ' '), List.takeWhile_append_dropWhile.symm, ?_⟩
  intro s hs hahead
  rw [spaces_eq hs, hahead]

theorem reads_options_spaces {options : Options} (h : options.skipSpaces = true) (t : Text) :
    Reads options.spaces t () t.dropSpaces := by
  unfold Options.spaces
  rw [if_pos h]
  exact reads_spaces t

theorem reads_token (token rest : Text) : Reads (Read.token token) (token ++ rest) true rest := by
  refine ⟨token, rfl, ?_⟩
  intro s hs hahead
  rw [token_eq hs, hahead, if_pos (List.prefix_append token rest)]

theorem reads_token_absent {token t : Text} (h : ¬ token <+: t) :
    Reads (Read.token token) t false t := by
  refine ⟨[], rfl, ?_⟩
  intro s hs hahead
  rw [token_eq hs, hahead, if_neg h, List.length_nil, Int.natCast_zero, State.advance_zero]

end Read

end LineScript
