import LineScript.Evaluator
import LineScript.Proofs.Delimited
import LineScript.Standard
import Mathlib.Algebra.Group.Nat.Even
import Mathlib.Data.List.DropRight
import Mathlib.Order.Bounds.Basic

/-!
This module contains the proof that a string ends at the first character that can end it and is not
escaped. The read of a string remembers no more than whether the last unit was a backslash that escapes
the next one; here the end is described by the whole text before it: a character is escaped if the
backslashes directly before it are odd in number.
-/

namespace LineScript

namespace Text

/--
The text without the backslashes that escape a character. A backslash at the end that has nothing to
escape is left out too.
-/
def unescape : Text → Text
  | '\\' :: c :: t => c :: unescape t
  | ['\\'] => []
  | c :: t => c :: unescape t
  | [] => []

/--
The number of backslashes at the end of the text.
-/
def trailingBackslashes (t : Text) : Nat := (t.rtakeWhile (· == '\\')).length

/--
At the place `p` of the text there is a character that can end a string, and it is not escaped.
-/
@[mk_iff]
structure EndsAt (isEnd : Char → Prop) (t : Text) (p : Nat) : Prop where
  exists_isEnd : ∃ c, t[p]? = some c ∧ isEnd c
  even : Even (trailingBackslashes (t.take p))

instance (isEnd : Char → Prop) [DecidablePred isEnd] (t : Text) (p : Nat) :
    Decidable (EndsAt isEnd t p) :=
  decidable_of_iff (t[p]?.any (isEnd ·) = true ∧ Even (trailingBackslashes (t.take p))) (by
    rw [Option.any_eq_true, endsAt_iff]
    simp)

variable {isEnd : Char → Prop} {c : Char} {t : Text} {p : Nat}

theorem unescape_cons (hc : c ≠ '\\') (t : Text) : unescape (c :: t) = c :: unescape t := by
  rw [unescape]
  . intro _ _ h
    exact absurd h hc
  . intro h
    exact absurd h hc

theorem ne_backslash_of_not_escape (hescape : ∀ c' t', c = '\\' → t = c' :: t' → False)
    (hlone : c = '\\' → t = [] → False) : c ≠ '\\' := by
  intro hc
  cases t with
  | nil => exact hlone hc rfl
  | cons c' t => exact hescape c' t hc rfl

theorem trailingBackslashes_of_all (h : t.all (· == '\\') = true) :
    trailingBackslashes t = t.length := by
  unfold trailingBackslashes
  rw [List.rtakeWhile_eq_self_iff.mpr]
  exact List.all_eq_true.mp h

theorem trailingBackslashes_append (t u : Text) :
    trailingBackslashes (t ++ u) =
      if u.all (· == '\\') then trailingBackslashes t + u.length else trailingBackslashes u := by
  have hall : (u.reverse.takeWhile (· == '\\')).length = u.reverse.length ↔
      u.all (· == '\\') = true := by
    constructor
    . intro hlength
      have hself := (List.takeWhile_prefix _).eq_of_length hlength
      simpa using hself
    . intro hbackslash
      rw [List.takeWhile_eq_self_iff.mpr]
      simpa using hbackslash
  unfold trailingBackslashes List.rtakeWhile
  rw [List.reverse_append, List.takeWhile_append]
  simp only [hall]
  split
  . simp
  . rfl

theorem trailingBackslashes_cons (hc : c ≠ '\\') (t : Text) :
    trailingBackslashes (c :: t) = trailingBackslashes t := by
  have hnone : trailingBackslashes [c] = 0 := by
    simp [trailingBackslashes, List.rtakeWhile, hc]
  have happend := trailingBackslashes_append [c] t
  rw [hnone, Nat.zero_add] at happend
  refine happend.trans ?_
  split
  . next hall => exact (trailingBackslashes_of_all hall).symm
  . rfl

theorem even_trailingBackslashes_escaped (c : Char) (t : Text) :
    Even (trailingBackslashes ('\\' :: c :: t)) ↔ Even (trailingBackslashes t) := by
  have hpair : Even (trailingBackslashes ['\\', c]) := by
    by_cases hc : c = '\\'
    . subst hc
      decide
    . simp [trailingBackslashes, List.rtakeWhile, hc]
  have happend := trailingBackslashes_append ['\\', c] t
  rw [List.cons_append, List.cons_append, List.nil_append] at happend
  rw [happend]
  split
  . next hall => rw [trailingBackslashes_of_all hall, Nat.even_add, iff_true_left hpair]
  . rfl

theorem endsAt_zero : EndsAt isEnd (c :: t) 0 ↔ isEnd c := by
  constructor
  . rintro ⟨⟨c', hc', hend⟩, -⟩
    cases hc'
    exact hend
  . intro hend
    refine ⟨⟨c, rfl, hend⟩, ?_⟩
    rw [List.take_zero]
    decide

theorem endsAt_cons (hc : c ≠ '\\') : EndsAt isEnd (c :: t) (p + 1) ↔ EndsAt isEnd t p := by
  constructor
  . rintro ⟨hend, heven⟩
    rw [List.take_succ_cons, trailingBackslashes_cons hc] at heven
    exact ⟨hend, heven⟩
  . rintro ⟨hend, heven⟩
    refine ⟨hend, ?_⟩
    rw [List.take_succ_cons, trailingBackslashes_cons hc]
    exact heven

theorem endsAt_escaped : EndsAt isEnd ('\\' :: c :: t) (p + 2) ↔ EndsAt isEnd t p := by
  constructor
  . rintro ⟨hend, heven⟩
    exact ⟨hend, (even_trailingBackslashes_escaped c _).mp heven⟩
  . rintro ⟨hend, heven⟩
    exact ⟨hend, (even_trailingBackslashes_escaped c _).mpr heven⟩

theorem not_endsAt_one : ¬ EndsAt isEnd ('\\' :: t) 1 := by
  rintro ⟨-, heven⟩
  have hodd : ¬ Even (trailingBackslashes ['\\']) := by decide
  exact hodd heven

/--
The first end of a text is the first end of what comes after its first `n` characters, if no string
can end among these.
-/
theorem exists_isLeast_endsAt {t' : Text} (n : Nat) (hnone : ∀ q < n, ¬ EndsAt isEnd t q)
    (hshift : ∀ q, EndsAt isEnd t (q + n) ↔ EndsAt isEnd t' q)
    (h : IsLeast {p | EndsAt isEnd t p} p) :
    ∃ q, p = q + n ∧ IsLeast {p | EndsAt isEnd t' p} q := by
  obtain ⟨hends, hleast⟩ := h
  have hle : n ≤ p := by
    apply Nat.le_of_not_lt
    intro hlt
    exact hnone p hlt hends
  obtain ⟨q, rfl⟩ := Nat.exists_eq_add_of_le' hle
  refine ⟨q, rfl, (hshift q).mp hends, ?_⟩
  intro r hr
  exact Nat.le_of_add_le_add_right (hleast ((hshift r).mpr hr))

end Text

namespace Read

open Eval

/--
The characters that end a string if they are not escaped: the given one, and a semicolon if the string
ends at semicolons.
-/
def IsEnd (endAtSemicolon : Bool) (mark c : Char) : Prop :=
  c = mark ∨ endAtSemicolon = true ∧ c = ';'

instance (endAtSemicolon : Bool) (mark : Char) : DecidablePred (IsEnd endAtSemicolon mark) :=
  fun c => inferInstanceAs (Decidable (c = mark ∨ endAtSemicolon = true ∧ c = ';'))

variable {endAtSemicolon keepStop : Bool} {mark c : Char} {t : Text} {d : Draft} {p : Nat}

theorem judgeString_backslash (hmark : mark ≠ '\\') (hd : d.escaping = false) :
    judgeString endAtSemicolon keepStop (.literal [mark]) d ['\\'] =
      .next { d with escaping := true } := by
  have hne : '\\' ≠ mark := Ne.symm hmark
  simp [judgeString, hd, hne]

theorem judgeString_plain (hc : c ≠ '\\') (hend : ¬ IsEnd endAtSemicolon mark c)
    (hd : d.escaping = false) :
    judgeString endAtSemicolon keepStop (.literal [mark]) d [c] = .next (d.append [c]) := by
  unfold IsEnd at hend
  rw [not_or] at hend
  simp [judgeString, hd, hend.1, hend.2, hc]

theorem judgeString_end (hend : IsEnd endAtSemicolon mark c) (hd : d.escaping = false) :
    judgeString endAtSemicolon keepStop (.literal [mark]) d [c] =
      if endAtSemicolon && c == ';' || keepStop then .keep d else .giveBack d := by
  by_cases hsemicolon : endAtSemicolon = true ∧ c = ';'
  . simp [judgeString, hd, hsemicolon]
  . obtain rfl : c = mark := hend.resolve_right hsemicolon
    simp [judgeString, hd, hsemicolon]

theorem scanText_escaped (hmark : mark ≠ '\\') (hc : c ≠ '$') (hd : d.escaping = false) (t : Text) :
    scanText (· != '$') (judgeString endAtSemicolon keepStop (.literal [mark])) d ('\\' :: c :: t) =
      scanText (· != '$') (judgeString endAtSemicolon keepStop (.literal [mark])) (d.append [c]) t := by
  have hplain : (c != '$') = true := by simpa using hc
  have hescaped : judgeString endAtSemicolon keepStop (.literal [mark])
      { d with escaping := true } [c] = .next (d.append [c]) := rfl
  rw [scanText, if_pos (by decide), judgeString_backslash hmark hd]
  dsimp only
  rw [scanText, if_pos hplain, hescaped]

theorem scanText_plain (hc : c ≠ '\\') (hplain : c ≠ '$') (hend : ¬ IsEnd endAtSemicolon mark c)
    (hd : d.escaping = false) (t : Text) :
    scanText (· != '$') (judgeString endAtSemicolon keepStop (.literal [mark])) d (c :: t) =
      scanText (· != '$') (judgeString endAtSemicolon keepStop (.literal [mark])) (d.append [c]) t := by
  rw [scanText, if_pos (by simpa using hplain), judgeString_plain hc hend hd]

theorem not_isEnd_backslash (hmark : mark ≠ '\\') : ¬ IsEnd endAtSemicolon mark '\\' := by
  rintro (h | ⟨-, h⟩)
  . exact hmark h.symm
  . cases h

theorem not_endsAt_of_lt_two (hmark : mark ≠ '\\') {p : Nat} (hp : p < 2) :
    ¬ Text.EndsAt (IsEnd endAtSemicolon mark) ('\\' :: t) p := by
  match p, hp with
  | 0, _ =>
    rw [Text.endsAt_zero]
    exact not_isEnd_backslash hmark
  | 1, _ => exact Text.not_endsAt_one

/--
The number of characters of the text that a string takes if it ends at the place `p`.
-/
def taken (endAtSemicolon keepStop : Bool) (t : Text) (p : Nat) : Nat :=
  if endAtSemicolon && t[p]? == some ';' || keepStop then p + 1 else p

theorem drop_taken_cons (c : Char) (t : Text) (p : Nat) :
    (c :: t).drop (taken endAtSemicolon keepStop (c :: t) (p + 1)) =
      t.drop (taken endAtSemicolon keepStop t p) := by
  unfold taken
  rw [List.getElem?_cons_succ]
  split <;> rfl

theorem scanText_end (hplain : c ≠ '$') (hend : IsEnd endAtSemicolon mark c)
    (hd : d.escaping = false) (t : Text) :
    scanText (· != '$') (judgeString endAtSemicolon keepStop (.literal [mark])) d (c :: t) =
      some (d, (c :: t).drop (taken endAtSemicolon keepStop (c :: t) 0)) := by
  rw [scanText, if_pos (by simpa using hplain), judgeString_end hend hd]
  unfold taken
  rw [List.getElem?_cons_zero, Option.some_beq_some]
  cases endAtSemicolon && c == ';' || keepStop <;> rfl

/--
The read of a string ends at the first end of the text. The induction takes a backslash together with
the character that it escapes, so that no escape is pending before any of its steps.
-/
theorem scanText_of_isLeast (keepStop : Bool) (hmark : mark ≠ '\\') (ht : '$' ∉ t) (hd : d.escaping = false)
    (hp : IsLeast {p | t.EndsAt (IsEnd endAtSemicolon mark) p} p) :
    scanText (· != '$') (judgeString endAtSemicolon keepStop (.literal [mark])) d t =
      some (d.append (Text.unescape (t.take p)), t.drop (taken endAtSemicolon keepStop t p)) := by
  induction t using Text.unescape.induct generalizing d p with
  | case1 c t ih =>
    simp only [List.mem_cons, not_or] at ht
    obtain ⟨-, hc, ht⟩ := ht
    obtain ⟨q, rfl, hq⟩ := Text.exists_isLeast_endsAt 2 (fun _ => not_endsAt_of_lt_two hmark)
      (fun _ => Text.endsAt_escaped) hp
    rw [scanText_escaped hmark (Ne.symm hc) hd, ih ht rfl hq, append_append, drop_taken_cons,
      drop_taken_cons]
    rfl
  | case2 =>
    obtain ⟨c, hc, hend⟩ := hp.1.exists_isEnd
    obtain ⟨rfl, rfl⟩ : p = 0 ∧ '\\' = c := by simpa [List.getElem?_singleton] using hc
    exact absurd hend (not_isEnd_backslash hmark)
  | case3 c t hescape hlone ih =>
    simp only [List.mem_cons, not_or] at ht
    have hc := Text.ne_backslash_of_not_escape hescape hlone
    by_cases hend : IsEnd endAtSemicolon mark c
    . obtain rfl : p = 0 := Nat.le_zero.mp (hp.2 (Text.endsAt_zero.mpr hend))
      rw [scanText_end (Ne.symm ht.1) hend hd, List.take_zero, Text.unescape,
        append_nil_of_escaping_eq hd]
    . obtain ⟨q, rfl, hq⟩ := Text.exists_isLeast_endsAt 1
        (fun r hr => by
          obtain rfl : r = 0 := by omega
          rw [Text.endsAt_zero]
          exact hend)
        (fun _ => Text.endsAt_cons hc) hp
      rw [scanText_plain hc (Ne.symm ht.1) hend hd, ih ht.2 rfl hq, append_append, drop_taken_cons,
        List.take_succ_cons, Text.unescape_cons hc]
      rfl
  | case4 =>
    obtain ⟨c, hc, -⟩ := hp.1.exists_isEnd
    cases hc

theorem exists_scanText_of_not_endsAt (keepStop : Bool) (hmark : mark ≠ '\\') (ht : '$' ∉ t)
    (hd : d.escaping = false) (hnone : ∀ p, ¬ t.EndsAt (IsEnd endAtSemicolon mark) p) :
    ∃ d', scanText (· != '$') (judgeString endAtSemicolon keepStop (.literal [mark])) d t =
        some (d', []) ∧ d'.text = d.text ++ Text.unescape t := by
  induction t using Text.unescape.induct generalizing d with
  | case1 c t ih =>
    simp only [List.mem_cons, not_or] at ht
    obtain ⟨-, hc, ht⟩ := ht
    obtain ⟨d', hscan, htext⟩ := ih (d := d.append [c]) ht rfl fun p hp =>
      hnone (p + 2) (Text.endsAt_escaped.mpr hp)
    refine ⟨d', ?_, ?_⟩
    . rw [scanText_escaped hmark (Ne.symm hc) hd, hscan]
    . rw [htext, Draft.text_append, List.append_assoc]
      rfl
  | case2 =>
    refine ⟨{ d with escaping := true }, ?_, (List.append_nil _).symm⟩
    rw [scanText, if_pos (by decide), judgeString_backslash hmark hd]
    rfl
  | case3 c t hescape hlone ih =>
    simp only [List.mem_cons, not_or] at ht
    have hc := Text.ne_backslash_of_not_escape hescape hlone
    obtain ⟨d', hscan, htext⟩ := ih (d := d.append [c]) ht.2 rfl fun p hp =>
      hnone (p + 1) ((Text.endsAt_cons hc).mpr hp)
    refine ⟨d', ?_, ?_⟩
    . rw [scanText_plain hc (Ne.symm ht.1) (fun hend => hnone 0 (Text.endsAt_zero.mpr hend)) hd, hscan]
    . rw [htext, Draft.text_append, List.append_assoc, Text.unescape_cons hc]
      rfl
  | case4 => exact ⟨d, rfl, (List.append_nil _).symm⟩

/--
How a string is read that ends at a given character: its spaces are part of it.
-/
def markedOptions (endAtSemicolon keepStop : Bool) (mark : Char) : StringOptions :=
  { skipSpaces := false, endAtSemicolon, stop := some (.literal [mark]), keepStop := some keepStop }

theorem reads_marked_of_scanText (evaluator : Evaluator) {d : Draft} {rest : Text}
    (hscan : scanText (· != '$') (judgeString endAtSemicolon keepStop (.literal [mark])) {} t =
      some (d, rest)) :
    Reads (string (unit evaluator) (markedOptions endAtSemicolon keepStop mark)) t d.text rest := by
  have hspaces : ∀ t, Reads (markedOptions endAtSemicolon keepStop mark).spaces t () t := reads_pure ()
  unfold string
  apply Reads.bind (hspaces t)
  apply Reads.bind (reads_pure (Matcher.literal [mark]) t)
  apply Reads.bind (reads_scan (verbatim_unit evaluator) hscan)
  apply Reads.bind (hspaces rest)
  exact reads_pure d.text rest

/--
Where a string ends. On text without dollar signs, a string that a given character ends goes up to the
first place where that character stands, or a semicolon if semicolons end it too, after an even number
of backslashes. It is the text before that place without the backslashes that escape. The character
itself is taken if it is kept or if it is a semicolon that ends the string. Without such a place the
string goes up to the end of the text.
-/
theorem string_ends_at_first_end (evaluator : Evaluator) (mark : Char) (hmark : mark ≠ '\\')
    (endAtSemicolon keepStop : Bool) (t : Text) (ht : '$' ∉ t) :
    let read := string (unit evaluator) (markedOptions endAtSemicolon keepStop mark)
    (∀ p, IsLeast {p | t.EndsAt (IsEnd endAtSemicolon mark) p} p →
      Reads read t (Text.unescape (t.take p)) (t.drop (taken endAtSemicolon keepStop t p))) ∧
    ((∀ p, ¬ t.EndsAt (IsEnd endAtSemicolon mark) p) → Reads read t (Text.unescape t) []) := by
  constructor
  . intro p hp
    have hread := reads_marked_of_scanText evaluator (scanText_of_isLeast keepStop hmark ht rfl hp)
    rw [text_append_empty] at hread
    exact hread
  . intro hnone
    obtain ⟨d, hscan, htext⟩ := exists_scanText_of_not_endsAt (d := {}) keepStop hmark ht rfl hnone
    have hread := reads_marked_of_scanText evaluator hscan
    rw [htext] at hread
    exact hread

/--
In the first text the quote at the place `4` is escaped and the one at the place `7` is not, for two
backslashes are before it. In the second text the only quote is escaped, and the backslash at the end
has nothing to escape.
-/
theorem string_ends_at_first_end_quotes :
    let read := string (unit (Evaluator.ofLevel Standard.registry 1)) (markedOptions true false '"')
    Reads read "a\\;\\\"\\\\\"b;".toList "a;\"\\".toList "\"b;".toList ∧
      Reads read "a\\\"b\\".toList "a\"b".toList [] := by
  have hfirst : IsLeast {p | Text.EndsAt (IsEnd true '"') "a\\;\\\"\\\\\"b;".toList p} 7 := by
    have hbefore : ∀ q < 7, ¬ Text.EndsAt (IsEnd true '"') "a\\;\\\"\\\\\"b;".toList q := by decide
    refine ⟨by decide, ?_⟩
    intro q hq
    apply Nat.le_of_not_lt
    intro hlt
    exact hbefore q hlt hq
  have hnone : ∀ p, ¬ Text.EndsAt (IsEnd true '"') "a\\\"b\\".toList p := by
    have hinside : ∀ p < 5, ¬ Text.EndsAt (IsEnd true '"') "a\\\"b\\".toList p := by decide
    intro p hp
    obtain ⟨c, hc, -⟩ := hp.exists_isEnd
    obtain ⟨hlt, -⟩ := List.getElem?_eq_some_iff.mp hc
    exact hinside p hlt hp
  exact ⟨(string_ends_at_first_end _ '"' (by decide) true false _ (by decide)).1 7 hfirst,
    (string_ends_at_first_end _ '"' (by decide) true false _ (by decide)).2 hnone⟩

end Read

end LineScript
