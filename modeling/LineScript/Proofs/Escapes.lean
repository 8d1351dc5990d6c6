import LineScript.Evaluator
import LineScript.Proofs.Units
import LineScript.Standard

/-!
This module contains the proof that the read of a string undoes escapes. A backslash before a dollar
sign does not protect it, for the sign is resolved before the backslash is looked at. It is the
character after the sign that has to be protected: what comes after a dollar sign is then neither the
name of a variable nor a substitution.
-/

namespace LineScript

/--
The second text is the first one with backslashes before some of its characters. All characters in
`marks` have one, and so have braces and characters of names that come right after a dollar sign; the
first character counts as such a one if `afterDollar`.
-/
inductive Text.Escapes (marks : Char → Prop) : (afterDollar : Bool) → (t e : Text) → Prop
  | nil (afterDollar : Bool) : Escapes marks afterDollar [] []
  | escaped {afterDollar : Bool} {t e : Text} (c : Char) (h : Escapes marks (c == '$') t e) :
    Escapes marks afterDollar (c :: t) ('\\' :: c :: e)
  | plain {afterDollar : Bool} {t e : Text} (c : Char) (hmarks : ¬ marks c)
    (hname : afterDollar = true → c ≠ '{' ∧ Text.isNameChar c = false)
    (h : Escapes marks (c == '$') t e) : Escapes marks afterDollar (c :: t) (c :: e)

namespace Text.Escapes

variable {marks : Char → Prop} {afterDollar : Bool} {t e rest : Text}

theorem head?_append_of_dollar (h : Escapes marks true t e)
    (hrest : ∀ c, rest.head? = some c → c ≠ '{' ∧ Text.isNameChar c = false) :
    ∀ c, (e ++ rest).head? = some c → c ≠ '{' ∧ Text.isNameChar c = false := by
  intro c hc
  cases h with
  | nil => exact hrest c hc
  | escaped =>
    cases hc
    decide
  | plain _ _ hname =>
    cases hc
    exact hname rfl

theorem head?_append_of_ne_nil (h : Escapes marks afterDollar t e) (ht : t ≠ []) :
    ∀ c, (e ++ rest).head? = some c → c = '\\' ∨ ¬ marks c := by
  intro c hc
  cases h with
  | nil => exact absurd rfl ht
  | escaped =>
    cases hc
    exact Or.inl rfl
  | plain _ hmarks =>
    cases hc
    exact Or.inr hmarks

end Text.Escapes

namespace Read

open Eval

variable {marks : Char → Prop} {afterDollar : Bool} {t e rest rest' : Text} {scope : Table Value}
  {endAtSemicolon keepStop : Bool} {stop : Matcher} {d d' : Draft}

theorem reads_of_readsIn {α : Type} {x : Eval α} {a : α} (h : ∀ scope, ReadsIn scope x t a rest) :
    Reads x t a rest := by
  obtain ⟨used, ht, -⟩ := h .empty
  refine ⟨used, ht, ?_⟩
  intro s hs hahead
  obtain ⟨used', ht', hx⟩ := h s.cursor.scope
  rw [hx s hs rfl hahead, List.append_cancel_right (ht'.symm.trans ht)]

theorem takesUnit_before_escapes (evaluator : Evaluator) (scope : Table Value) (c : Char)
    (h : Text.Escapes marks (c == '$') t e)
    (hrest : ∀ c, rest.head? = some c → c ≠ '{' ∧ Text.isNameChar c = false) :
    TakesUnit (unit evaluator) scope (c :: (e ++ rest)) [c] (e ++ rest) := by
  by_cases hc : c = '$'
  . subst hc
    exact takesUnit_dollar evaluator scope (h.head?_append_of_dollar hrest)
  . exact takesUnit_of_verbatim (verbatim_unit evaluator) hc scope _

/--
The scan of a text with escapes adds the text without them, if all characters that could end it are
among the marks. It goes on with what comes after, which must not be taken for the name of a variable
or for a substitution.
-/
theorem scans_escapes (evaluator : Evaluator) (hstop : stop.accepts (.text ['\\']) = false)
    (hplain : ∀ c, ¬ marks c → (endAtSemicolon = true → c ≠ ';') ∧ c ≠ '\\' ∧
      stop.accepts (.text [c]) = false)
    (h : Text.Escapes marks afterDollar t e)
    (hrest : ∀ c, rest.head? = some c → c ≠ '{' ∧ Text.isNameChar c = false)
    (hd : d.escaping = false)
    (hscan : Scans (unit evaluator) (judgeString endAtSemicolon keepStop stop) scope (d.append t) rest
      d' rest') :
    Scans (unit evaluator) (judgeString endAtSemicolon keepStop stop) scope d (e ++ rest) d' rest' := by
  induction h generalizing d with
  | nil =>
    rw [append_nil_of_escaping_eq hd] at hscan
    exact hscan
  | @escaped _ t e c h ih =>
    have hbackslash : TakesUnit (unit evaluator) scope ('\\' :: c :: e ++ rest) ['\\']
        (c :: (e ++ rest)) :=
      takesUnit_of_verbatim (verbatim_unit evaluator) (by decide) scope _
    apply hbackslash.scans_next (e := { d with escaping := true })
    . simp [judgeString, hd, hstop]
    . apply (takesUnit_before_escapes evaluator scope c h hrest).scans_next
        (e := { d with escaping := true }.append [c])
      . simp [judgeString]
      . apply ih rfl
        rw [append_append]
        exact hscan
  | @plain _ t e c hmarks _ h ih =>
    obtain ⟨hsemicolon, hbackslash, hpass⟩ := hplain c hmarks
    apply (takesUnit_before_escapes evaluator scope c h hrest).scans_next (e := d.append [c])
    . unfold judgeString
      rw [if_neg (by simp [hd]), if_neg (by simpa using hsemicolon), if_neg (by simp [hpass]),
        if_neg (by simpa using hbackslash)]
    . apply ih rfl
      rw [append_append]
      exact hscan

/--
What ends a quoted string, unless it is escaped.
-/
def quotedMarks : List Char := ['"', ';', '\\']

/--
What ends a string that is not quoted, unless it is escaped, and the quote that would start another
one.
-/
def unquotedMarks : List Char := ' ' :: quotedMarks

theorem reads_quoted_escapes (evaluator : Evaluator) (h : Text.Escapes (· ∈ quotedMarks) false t e)
    (rest : Text) :
    Reads (string (unit evaluator) {}) ('"' :: e ++ '"' :: rest) t rest.dropSpaces := by
  have hmatcher : Reads (StringOptions.matcher {}) (Text.dropSpaces ('"' :: e ++ '"' :: rest))
      (.literal ['"']) (e ++ '"' :: rest) :=
    Reads.bind (reads_token ['"'] _) (reads_pure _ _)
  have hplain : ∀ c, c ∉ quotedMarks → (true = true → c ≠ ';') ∧ c ≠ '\\' ∧
      (Matcher.literal ['"']).accepts (.text [c]) = false := by
    intro c hc
    simp only [quotedMarks, List.mem_cons, List.not_mem_nil, or_false, not_or] at hc
    exact ⟨fun _ => hc.2.1, hc.2.2, by simpa using hc.1⟩
  have hquote : ∀ c, ('"' :: rest).head? = some c → c ≠ '{' ∧ Text.isNameChar c = false := by
    rintro c ⟨⟩
    decide
  apply reads_of_readsIn
  intro scope
  have hend : Scans (unit evaluator) (judgeString true true (.literal ['"'])) scope
      (Draft.append {} t) ('"' :: rest) (Draft.append {} t) rest := by
    apply (takesUnit_of_verbatim (verbatim_unit evaluator) (by decide) scope rest).scans_keep
    simp [judgeString, Draft.append]
  have hread := readsIn_string rfl hmatcher
    (scans_escapes evaluator (by simp) hplain h hquote rfl hend)
  rw [text_append_empty] at hread
  exact hread

/--
What comes after a string that is not quoted, and the text that the read of the string leaves, apart
from spaces.
-/
inductive EndsUnquoted : (after left : Text) → Prop
  | nil : EndsUnquoted [] []
  | space (after : Text) : EndsUnquoted (' ' :: after) (' ' :: after)
  | semicolon (after : Text) : EndsUnquoted (';' :: after) after

theorem EndsUnquoted.not_name {after left : Text} (h : EndsUnquoted after left) :
    ∀ c, after.head? = some c → c ≠ '{' ∧ Text.isNameChar c = false := by
  intro c hc
  cases h with
  | nil => cases hc
  | space after =>
    cases hc
    decide
  | semicolon after =>
    cases hc
    decide

theorem EndsUnquoted.scans {after left : Text} (h : EndsUnquoted after left) (evaluator : Evaluator)
    (scope : Table Value) (hd : d.escaping = false) :
    Scans (unit evaluator) (judgeString true false (.literal [' '])) scope d after d left := by
  cases h with
  | nil => exact scans_nil (verbatim_unit evaluator)
  | space more =>
    apply (takesUnit_of_verbatim (verbatim_unit evaluator) (by decide) scope more).scans_giveBack
    simp [judgeString, hd]
  | semicolon =>
    apply (takesUnit_of_verbatim (verbatim_unit evaluator) (by decide) scope left).scans_keep
    simp [judgeString, hd]

theorem reads_unquoted_escapes (evaluator : Evaluator) (ht : t ≠ [])
    (h : Text.Escapes (· ∈ unquotedMarks) false t e) {after left : Text}
    (hafter : EndsUnquoted after left) :
    Reads (string (unit evaluator) {}) (e ++ after) t left.dropSpaces := by
  have hplain : ∀ c, c ∉ unquotedMarks → (true = true → c ≠ ';') ∧ c ≠ '\\' ∧
      (Matcher.literal [' ']).accepts (.text [c]) = false := by
    intro c hc
    simp only [unquotedMarks, quotedMarks, List.mem_cons, List.not_mem_nil, or_false, not_or] at hc
    exact ⟨fun _ => hc.2.2.1, hc.2.2.2, by simpa using hc.1⟩
  -- the first character is a backslash or one that needs none, so neither a space nor a quote
  have hhead : ∀ c ∈ unquotedMarks, c ≠ '\\' → (e ++ after).head? ≠ some c := by
    intro c hc hne hhead
    obtain rfl | hmarks := h.head?_append_of_ne_nil ht c hhead
    . exact hne rfl
    . exact hmarks hc
  have hspaces : Text.dropSpaces (e ++ after) = e ++ after :=
    Text.dropSpaces_of_head? (hhead ' ' (by decide) (by decide))
  have hquote : ¬ ['"'] <+: e ++ after := by
    rintro ⟨more, hmore⟩
    apply hhead '"' (by decide) (by decide)
    rw [← hmore]
    rfl
  have hmatcher : Reads (StringOptions.matcher {}) (Text.dropSpaces (e ++ after))
      (.literal [' ']) (e ++ after) := by
    rw [hspaces]
    exact Reads.bind (reads_token_absent hquote) (reads_pure _ _)
  apply reads_of_readsIn
  intro scope
  have hread := readsIn_string rfl hmatcher
    (scans_escapes evaluator (by simp) hplain h hafter.not_name rfl (hafter.scans evaluator scope rfl))
  rw [text_append_empty] at hread
  exact hread

/--
The read of a string undoes escapes, whatever the variables hold, whatever the commands do and
whatever comes after it. All that happens is that the cursor moves: after the closing quote of a
quoted string, after the semicolon that ends another one, and in both cases after the spaces that
follow. Nothing is resolved and nothing is run.
-/
theorem string_undoes_escapes (evaluator : Evaluator) (t e : Text) :
    (Text.Escapes (· ∈ quotedMarks) false t e → ∀ rest : Text,
      Reads (string (unit evaluator) {}) ('"' :: e ++ '"' :: rest) t rest.dropSpaces) ∧
    (t ≠ [] → Text.Escapes (· ∈ unquotedMarks) false t e →
      ∀ after left, EndsUnquoted after left →
      Reads (string (unit evaluator) {}) (e ++ after) t left.dropSpaces) := by
  constructor
  . intro h rest
    exact reads_quoted_escapes evaluator h rest
  . intro ht h after left hafter
    exact reads_unquoted_escapes evaluator ht h hafter

theorem string_undoes_escapes_price :
    let read := string (unit (Evaluator.ofLevel Standard.registry 1)) {}
    Reads read "\"\\a$\\5\\; $\"  b".toList "a$5; $".toList ['b'] ∧
      Reads read "\\a$\\5\\;\\ $;  b".toList "a$5; $".toList ['b'] := by
  have hquoted : Text.Escapes (· ∈ quotedMarks) false "a$5; $".toList "\\a$\\5\\; $".toList :=
    .escaped 'a' <| .plain '$' (by decide) (by decide) <| .escaped '5' <| .escaped ';' <|
      .plain ' ' (by decide) (by decide) <| .plain '$' (by decide) (by decide) <| .nil _
  have hunquoted : Text.Escapes (· ∈ unquotedMarks) false "a$5; $".toList
      "\\a$\\5\\;\\ $".toList :=
    .escaped 'a' <| .plain '$' (by decide) (by decide) <| .escaped '5' <| .escaped ';' <|
      .escaped ' ' <| .plain '$' (by decide) (by decide) <| .nil _
  exact ⟨(string_undoes_escapes _ _ _).1 hquoted "  b".toList,
    (string_undoes_escapes _ _ _).2 (by decide) hunquoted _ _ (.semicolon "  b".toList)⟩

end Read

end LineScript
