import LineScript.Proofs.Reads
import LineScript.Read.Number
import LineScript.Read.Unit

/-!
This module contains reads of literal text: characters that stand for themselves. On such text a read
of units is a function of the text ahead alone, `scanText`. It resolves nothing, runs nothing and
leaves no event.
-/

namespace LineScript

/--
The text is not empty, and an unquoted string that starts with it goes on to its end.
-/
def Text.IsWord (t : Text) : Prop :=
  t ≠ [] ∧ ∀ c ∈ t, c ≠ ' ' ∧ c ≠ ';' ∧ c ≠ '\\' ∧ c ≠ '$' ∧ c ≠ '"'

instance (t : Text) : Decidable t.IsWord :=
  haveI := List.decidableBAll (fun c => c ≠ ' ' ∧ c ≠ ';' ∧ c ≠ '\\' ∧ c ≠ '$' ∧ c ≠ '"') t
  inferInstanceAs (Decidable (_ ∧ _))

theorem Text.IsWord.dropSpaces_append {w : Text} (h : w.IsWord) (t : Text) :
    dropSpaces (w ++ t) = w ++ t := by
  obtain ⟨hne, hchars⟩ := h
  cases w with
  | nil => exact absurd rfl hne
  | cons c w => exact dropSpaces_cons (hchars c List.mem_cons_self).1 (w ++ t)

end LineScript

namespace LineScript.Read

open Eval Cursor

variable {s : State} {σ : Type} {plain : Char → Bool}

/--
The reader takes a character as it is, if it is a plain one, and has no value at the end of the text.
-/
structure Verbatim (reader : Eval Value) (plain : Char → Bool) : Prop where
  cons : ∀ s c rest, s.cursor.InText → s.cursor.ahead = c :: rest → plain c = true →
    reader s = .ok (.text [c]) (s.advance 1)
  nil : ∀ s, s.cursor.InText → s.cursor.ahead = [] → reader s = .ok .null (s.advance 1)

/--
What the judge makes of a text whose characters stand for themselves, and the text that is left. There
is no answer if a character that is not plain is met, or one is refused.
-/
def scanText (plain : Char → Bool) (judge : σ → Text → Verdict σ) : σ → Text → Option (σ × Text)
  | d, [] => some (d, [])
  | d, c :: rest =>
    if plain c then
      match judge d [c] with
      | .next d => scanText plain judge d rest
      | .keep d => some (d, rest)
      | .giveBack d => some (d, c :: rest)
      | .refuse _ => none
    else none

theorem verbatim_rawUnit : Verbatim rawUnit fun _ => true where
  cons := by
    intro s c rest hs hahead _
    unfold rawUnit
    rw [bind_of_ok (char_eq hs), hahead]
    rfl
  nil := by
    intro s hs hahead
    unfold rawUnit
    rw [bind_of_ok (char_eq hs), hahead]
    rfl

theorem verbatim_unit (evaluator : Evaluator) : Verbatim (unit evaluator) (· != '$') where
  cons := by
    intro s c rest hs hahead hplain
    apply eq_ok_of_yields
    unfold unit
    rw [yields_bind, yields_of_eq_ok (char_eq hs), hahead, List.head?_cons]
    split
    . next heq =>
      cases heq
      cases hplain
    . exact ⟨rfl, rfl⟩
  nil := by
    intro s hs hahead
    unfold unit
    rw [bind_of_ok (char_eq hs), hahead]
    rfl

theorem scan.go_eq_of_scanText {reader : Eval Value} {judge : σ → Text → Verdict σ} {start d : σ}
    {rest : Text} (hreader : Verbatim reader plain) (budget : Nat) (hs : s.cursor.InText)
    (hbudget : s.cursor.ahead.length < budget)
    (h : scanText plain judge start s.cursor.ahead = some (d, rest)) :
    ∃ used, s.cursor.ahead = used ++ rest ∧
      go reader judge budget start s = .ok d (s.advance used.length) := by
  -- the budget is larger than what is ahead, and both go down by one with each character
  induction budget generalizing s start with
  | zero => omega
  | succ budget ih =>
    unfold go
    rw [index_bind]
    cases hahead : s.cursor.ahead with
    | nil =>
      rw [hahead] at h
      cases h
      rw [bind_of_ok (hreader.nil s hs hahead)]
      refine ⟨[], rfl, ?_⟩
      simp only [List.length_nil, Int.natCast_zero, State.advance_zero]
      rfl
    | cons c rest' =>
      obtain ⟨hs', hrest⟩ := ahead_of_cons hs hahead
      rw [hahead] at h hbudget
      unfold scanText at h
      split at h
      . next hplain =>
        have htext : textOf (.text [c]) (s.advance 1) = .ok [c] (s.advance 1) := rfl
        rw [bind_of_ok (hreader.cons s c rest' hs hahead hplain)]
        dsimp only
        rw [bind_of_ok htext]
        split at h
        . next d' hd =>
          rw [hd]
          dsimp only
          obtain ⟨used, hused, hgo⟩ :=
            ih hs' (by rw [hrest]; simpa using hbudget) (by rw [hrest]; exact h)
          rw [hrest] at hused
          refine ⟨c :: used, by rw [hused, List.cons_append], ?_⟩
          rw [hgo, State.advance_advance, List.length_cons]
          congr 2
          omega
        . next d' hd =>
          cases h
          rw [hd]
          exact ⟨[c], rfl, rfl⟩
        . next d' hd =>
          cases h
          rw [hd]
          refine ⟨[], rfl, ?_⟩
          simp only [List.length_nil, Int.natCast_zero, State.advance_zero]
          rfl
        . cases h
      . cases h

theorem reads_scan {reader : Eval Value} {judge : σ → Text → Verdict σ} {start d : σ} {t rest : Text}
    (hreader : Verbatim reader plain) (h : scanText plain judge start t = some (d, rest)) :
    Reads (scan reader judge start) t d rest := by
  have hscan : ∀ s : State, s.cursor.InText → s.cursor.ahead = t →
      ∃ used, t = used ++ rest ∧ scan reader judge start s = .ok d (s.advance used.length) := by
    intro s hs hahead
    unfold scan
    rw [cursor_bind, remaining_eq hs, ← hahead]
    exact scan.go_eq_of_scanText hreader _ hs (Nat.lt_succ_self _) (hahead ▸ h)
  -- what is used does not depend on the state, so that of any one will do
  obtain ⟨used, ht, -⟩ := hscan { cursor := { buffer := t } } (spawn_inText { buffer := [] } t) rfl
  refine ⟨used, ht, ?_⟩
  intro s hs hahead
  obtain ⟨used', ht', hs'⟩ := hscan s hs hahead
  rw [hs', List.append_cancel_right (ht'.symm.trans ht)]

theorem scanText_append {judge : σ → Text → Verdict σ} {push : σ → Char → σ} {w : Text}
    (hw : ∀ c ∈ w, plain c = true ∧ ∀ d, judge d [c] = .next (push d c)) (d : σ) (t : Text) :
    scanText plain judge d (w ++ t) = scanText plain judge (w.foldl push d) t := by
  induction w generalizing d with
  | nil => rfl
  | cons c w ih =>
    obtain ⟨hplain, hjudge⟩ := hw c List.mem_cons_self
    simp only [List.cons_append, List.foldl_cons, scanText, hplain, hjudge, ↓reduceIte]
    exact ih (fun c' hc' => hw c' (List.mem_cons_of_mem c hc')) (push d c)

theorem append_append (d : Draft) (t u : Text) : (d.append t).append u = d.append (t ++ u) := by
  simp [Draft.append]

theorem append_nil_of_escaping_eq {d : Draft} (hd : d.escaping = false) : d.append [] = d := by
  cases d
  cases hd
  rfl

theorem text_append_empty (w : Text) : (Draft.append {} w).text = w := by
  rw [Draft.text_append]
  rfl

theorem scanText_string {endAtSemicolon : Bool} (keepStop : Bool) {stop : Matcher} {w : Text}
    (hw : ∀ c ∈ w, plain c = true ∧ (endAtSemicolon = true → c ≠ ';') ∧ c ≠ '\\' ∧
      stop.accepts (.text [c]) = false) (t : Text) :
    scanText plain (judgeString endAtSemicolon keepStop stop) {} (w ++ t) =
      scanText plain (judgeString endAtSemicolon keepStop stop) (Draft.append {} w) t := by
  -- while no escape is pending, adding characters one by one is adding them at once
  have hfold : ∀ (w : Text) (d : Draft), d.escaping = false →
      w.foldl (fun d c => d.append [c]) d = d.append w := by
    intro w
    induction w with
    | nil =>
      intro d hd
      exact (append_nil_of_escaping_eq hd).symm
    | cons c w ih =>
      intro d hd
      rw [List.foldl_cons, ih (d.append [c]) rfl, append_append]
      rfl
  rw [← hfold w {} rfl]
  apply scanText_append
  intro c hc
  obtain ⟨hplain, hsemicolon, hbackslash, hstop⟩ := hw c hc
  refine ⟨hplain, fun d => ?_⟩
  unfold judgeString
  simp only [List.cons.injEq, and_true, hbackslash, hstop, Bool.and_eq_true, decide_eq_true_eq,
    Bool.false_eq_true, ↓reduceIte]
  split
  . rfl
  . rw [if_neg (fun h => hsemicolon h.1 h.2)]

theorem scanText_semicolon {keepStop : Bool} {stop : Matcher} (hplain : plain ';' = true) {d : Draft}
    (hd : d.escaping = false) (rest : Text) :
    scanText plain (judgeString true keepStop stop) d (';' :: rest) = some (d, rest) := by
  simp [scanText, judgeString, hplain, hd]

theorem scanText_stop {endAtSemicolon keepStop : Bool} {stop : Matcher} {c : Char}
    (hplain : plain c = true) (hsemicolon : c ≠ ';') (hstop : stop.accepts (.text [c]) = true)
    {d : Draft} (hd : d.escaping = false) (rest : Text) :
    scanText plain (judgeString endAtSemicolon keepStop stop) d (c :: rest) =
      some (d, if keepStop then rest else c :: rest) := by
  cases keepStop <;> simp [scanText, judgeString, hplain, hd, hsemicolon, hstop]

theorem reads_string {reader : Eval Value} (hreader : Verbatim reader plain) {options : StringOptions}
    (hskip : options.skipSpaces = true) {stop : Matcher} {t body rest : Text} {d : Draft}
    (hmatcher : Reads options.matcher t.dropSpaces stop body)
    (hscan : scanText plain (judgeString options.endAtSemicolon
      (options.keepStop.getD !stop.accepts (.text [' '])) stop) {} body = some (d, rest)) :
    Reads (string reader options) t d.text rest.dropSpaces := by
  unfold string
  apply Reads.bind (reads_options_spaces hskip t)
  apply Reads.bind hmatcher
  apply Reads.bind (reads_scan hreader hscan)
  apply Reads.bind (reads_options_spaces hskip rest)
  exact reads_pure _ _

theorem reads_word {reader : Eval Value} (hreader : Verbatim reader (· != '$')) {w : Text}
    (hw : w.IsWord) (rest : Text) : Reads (string reader {}) (w ++ ' ' :: rest) w rest.dropSpaces := by
  have hquote : ¬ ['"'] <+: w ++ ' ' :: rest := by
    intro hprefix
    obtain ⟨hne, hchars⟩ := hw
    cases w with
    | nil => exact hne rfl
    | cons c w =>
      have heq : '"' = c := by simpa using hprefix
      exact (hchars c List.mem_cons_self).2.2.2.2 heq.symm
  have hmatcher : Reads (StringOptions.matcher {}) (w ++ ' ' :: rest).dropSpaces (.literal [' '])
      (w ++ ' ' :: rest) := by
    rw [hw.dropSpaces_append]
    exact Reads.bind (reads_token_absent hquote) (reads_pure _ _)
  have hplain : ∀ c ∈ w, (c != '$') = true ∧ (true = true → c ≠ ';') ∧ c ≠ '\\' ∧
      (Matcher.literal [' ']).accepts (.text [c]) = false := by
    intro c hc
    obtain ⟨hspace, hsemicolon, hbackslash, hdollar, -⟩ := hw.2 c hc
    exact ⟨by simpa using hdollar, fun _ => hsemicolon, hbackslash, by simpa using hspace⟩
  have hscan : scanText (· != '$') (judgeString true false (.literal [' '])) {} (w ++ ' ' :: rest) =
      some (Draft.append {} w, ' ' :: rest) := by
    rw [scanText_string false hplain]
    exact scanText_stop rfl (by decide) (by simp) rfl rest
  have hstring : Reads (string reader {}) (w ++ ' ' :: rest) _ _ :=
    reads_string hreader rfl hmatcher hscan
  rw [text_append_empty] at hstring
  exact hstring

theorem reads_name (t : Text) :
    Reads (name false) t (t.takeWhile Text.isNameChar) (t.dropWhile Text.isNameChar) := by
  have hscan : scanText (fun _ => true) (judgeString false false .notNameChar) {} t =
      some (Draft.append {} (t.takeWhile Text.isNameChar), t.dropWhile Text.isNameChar) := by
    have hw : ∀ c ∈ t.takeWhile Text.isNameChar, true = true ∧ (false = true → c ≠ ';') ∧
        c ≠ '\\' ∧ Matcher.notNameChar.accepts (.text [c]) = false := by
      intro c hc
      have hname : Text.isNameChar c = true := List.mem_takeWhile_imp hc
      refine ⟨rfl, nofun, ?_, ?_⟩
      . rintro rfl
        cases hname
      . simp [Matcher.notNameChar, Matcher.accepts, hname]
    have happend := scanText_string false hw (t.dropWhile Text.isNameChar)
    rw [List.takeWhile_append_dropWhile] at happend
    rw [happend]
    cases hdrop : t.dropWhile Text.isNameChar with
    | nil => rfl
    | cons c rest =>
      have hname : Text.isNameChar c = false :=
        Text.eq_false_of_head?_dropWhile (congrArg List.head? hdrop)
      simp [scanText, judgeString, Draft.append, Matcher.notNameChar, Matcher.accepts, hname]
  have hspaces : ∀ t, Reads (Options.spaces { skipSpaces := false, endAtSemicolon := false }) t () t :=
    reads_pure ()
  unfold name string
  apply Reads.bind (hspaces t)
  apply Reads.bind (reads_pure Matcher.notNameChar t)
  apply Reads.bind (reads_scan verbatim_rawUnit hscan)
  apply Reads.bind (hspaces _)
  rw [text_append_empty]
  exact reads_pure _ _

theorem name_eq (hs : s.cursor.InText) :
    name false s =
      .ok (s.cursor.ahead.takeWhile Text.isNameChar)
        (s.advance (s.cursor.ahead.takeWhile Text.isNameChar).length) := by
  obtain ⟨used, hused, hname⟩ := reads_name s.cursor.ahead
  have hsplit : used ++ s.cursor.ahead.dropWhile Text.isNameChar =
      s.cursor.ahead.takeWhile Text.isNameChar ++ s.cursor.ahead.dropWhile Text.isNameChar := by
    rw [← hused, List.takeWhile_append_dropWhile]
  rw [hname s hs rfl, List.append_cancel_right hsplit]

end LineScript.Read
