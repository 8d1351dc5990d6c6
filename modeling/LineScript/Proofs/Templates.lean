import LineScript.Proofs.Escapes
import Mathlib.Data.List.Chain

/-!
This module contains templates: quoted strings in which variables stand. The value of a variable is
compared with what could end the string or escape a unit, but as a whole. So its text is data, whatever
characters it has, unless it is one of these single characters itself.
-/

namespace LineScript

open Eval Read

/--
A piece of a template: a character that stands for itself, or a reference to a variable.
-/
inductive Piece
  | char (c : Char)
  | reference (name : Text)
  deriving DecidableEq, Repr

namespace Piece

def source : Piece → Text
  | .char c => [c]
  | .reference name => '$' :: name

/--
The text that the piece stands for. A reference stands for none if its variable is not bound, has no
value, or has one that cannot be written.
-/
def text? (scope : Table Value) : Piece → Option Text
  | .char c => some [c]
  | .reference name =>
    match scope.find? name with
    | none | some .null => none
    | some v => v.text?

/--
A character has no meaning of its own in a quoted string, and a name is made of letters and digits.
-/
def Proper : Piece → Prop
  | .char c => c ≠ '$' ∧ c ∉ quotedMarks
  | .reference name => name ≠ [] ∧ ∀ c ∈ name, Text.isNameChar c = true

/--
The second piece does not make the name of the first one longer.
-/
def Apart : Piece → Piece → Prop
  | .reference _, .char c => Text.isNameChar c = false
  | _, _ => True

end Piece

/--
A template.
-/
structure Template where
  pieces : List Piece
  proper : ∀ piece ∈ pieces, piece.Proper
  apart : pieces.IsChain Piece.Apart

namespace Template

def source (template : Template) : Text := template.pieces.flatMap Piece.source

/--
The template with the text of its value for each reference.
-/
def filled? (scope : Table Value) (template : Template) : Option Text :=
  (template.pieces.mapM (Piece.text? scope)).map List.flatten

end Template

variable {scope : Table Value} {piece : Piece} {pieces : List Piece} {u rest : Text}

theorem Piece.exists_of_text?_reference {name : Text}
    (h : (Piece.reference name).text? scope = some u) :
    ∃ v, scope.find? name = some v ∧ v ≠ .null ∧ v.text? = some u := by
  simp only [text?] at h
  split at h
  . cases h
  . cases h
  . next v hnull hfind => exact ⟨v, hfind, hnull, h⟩

theorem Piece.takesUnit (evaluator : Evaluator) (hproper : piece.Proper)
    (htext : piece.text? scope = some u)
    (hrest : ∀ name, piece = .reference name → ∀ c, rest.head? = some c → Text.isNameChar c = false) :
    TakesUnit (unit evaluator) scope (piece.source ++ rest) u rest := by
  cases piece with
  | char c =>
    cases htext
    exact takesUnit_of_verbatim (verbatim_unit evaluator) hproper.1 scope rest
  | reference name =>
    obtain ⟨v, hfind, hnull, hv⟩ := exists_of_text?_reference htext
    exact takesUnit_variable evaluator hproper.1 hproper.2 (hrest name rfl) hfind hnull hv

theorem judgeString_of_data {d : Draft} (hd : d.escaping = false)
    (hu : ∀ c ∈ quotedMarks, u ≠ [c]) :
    judgeString true true (.literal ['"']) d u = .next (d.append u) := by
  have hquote : u ≠ ['"'] := hu '"' (by decide)
  have hsemicolon : u ≠ [';'] := hu ';' (by decide)
  have hbackslash : u ≠ ['\\'] := hu '\\' (by decide)
  simp [judgeString, hd, hquote, hsemicolon, hbackslash]

theorem head?_source_append (hchain : (piece :: pieces).IsChain Piece.Apart) {name : Text}
    (hpiece : piece = .reference name) (rest : Text) :
    ∀ c, (pieces.flatMap Piece.source ++ '"' :: rest).head? = some c → Text.isNameChar c = false := by
  subst hpiece
  intro c hc
  cases pieces with
  | nil =>
    cases hc
    decide
  | cons next pieces =>
    have hapart : Piece.Apart (.reference name) next := (List.isChain_cons_cons.mp hchain).1
    cases next with
    | char c' =>
      cases hc
      exact hapart
    | reference name' =>
      cases hc
      decide

/--
The scan of the pieces adds their texts, if none of these is a character that ends the string or
escapes.
-/
theorem scans_pieces (evaluator : Evaluator) (hproper : ∀ piece ∈ pieces, piece.Proper)
    (hchain : pieces.IsChain Piece.Apart)
    (hdata : ∀ piece ∈ pieces, ∀ c ∈ quotedMarks, piece.text? scope ≠ some [c])
    {texts : List Text} (htexts : pieces.mapM (Piece.text? scope) = some texts) {d d' : Draft}
    (hd : d.escaping = false) {rest rest' : Text}
    (hscan : Scans (unit evaluator) (judgeString true true (.literal ['"'])) scope
      (d.append texts.flatten) ('"' :: rest) d' rest') :
    Scans (unit evaluator) (judgeString true true (.literal ['"'])) scope d
      (pieces.flatMap Piece.source ++ '"' :: rest) d' rest' := by
  induction pieces generalizing d texts with
  | nil =>
    rw [List.mapM_nil] at htexts
    cases htexts
    rw [List.flatten_nil, append_nil_of_escaping_eq hd] at hscan
    exact hscan
  | cons piece pieces ih =>
    rw [List.forall_mem_cons] at hproper hdata
    rw [List.mapM_cons] at htexts
    obtain ⟨u, hu, htexts⟩ := Option.bind_eq_some_iff.mp htexts
    obtain ⟨texts, htexts', heq⟩ := Option.bind_eq_some_iff.mp htexts
    cases heq
    have htake := piece.takesUnit evaluator hproper.1 hu
      fun name hname => head?_source_append hchain hname rest
    rw [List.flatMap_cons, List.append_assoc]
    apply htake.scans_next (judgeString_of_data hd fun c hc hmark => hdata.1 c hc (hmark ▸ hu))
    apply ih hproper.2 hchain.tail hdata.2 htexts' rfl
    rw [append_append]
    exact hscan

theorem readsIn_quoted (evaluator : Evaluator) {body rest : Text} {d : Draft}
    (hscan : Scans (unit evaluator) (judgeString true true (.literal ['"'])) scope {} body d rest) :
    ReadsIn scope (string (unit evaluator) {}) ('"' :: body) d.text rest.dropSpaces := by
  have hmatcher : Reads (StringOptions.matcher {}) (Text.dropSpaces ('"' :: body)) (.literal ['"'])
      body :=
    Reads.bind (reads_token ['"'] body) (reads_pure _ _)
  exact readsIn_string rfl hmatcher hscan

theorem readsIn_template (evaluator : Evaluator) (template : Template) {t : Text}
    (hfilled : template.filled? scope = some t)
    (hdata : ∀ name, .reference name ∈ template.pieces → ∀ c ∈ quotedMarks,
      (Piece.reference name).text? scope ≠ some [c]) (rest : Text) :
    ReadsIn scope (string (unit evaluator) {}) ('"' :: template.source ++ '"' :: rest) t
      rest.dropSpaces := by
  obtain ⟨texts, htexts, rfl⟩ := Option.map_eq_some_iff.mp hfilled
  have hdata' : ∀ piece ∈ template.pieces, ∀ c ∈ quotedMarks, piece.text? scope ≠ some [c] := by
    intro piece hmem c hc htext
    cases piece with
    | char c' =>
      cases htext
      exact (template.proper _ hmem).2 hc
    | reference name => exact hdata name hmem c hc htext
  have hend : Scans (unit evaluator) (judgeString true true (.literal ['"'])) scope
      (Draft.append {} texts.flatten) ('"' :: rest) (Draft.append {} texts.flatten) rest := by
    apply (takesUnit_of_verbatim (verbatim_unit evaluator) (by decide) scope rest).scans_keep
    simp [judgeString, Draft.append]
  have hread := readsIn_quoted evaluator
    (scans_pieces evaluator template.proper template.apart hdata' htexts rfl hend)
  rw [text_append_empty] at hread
  exact hread

/--
A value that is a quote or a semicolon ends the string. One that is a backslash escapes the quote at
the end of it.
-/
theorem readsIn_mark (evaluator : Evaluator) {name : Text} (hproper : (Piece.reference name).Proper)
    {c : Char} (hc : c ∈ quotedMarks) (htext : (Piece.reference name).text? scope = some [c]) :
    ReadsIn scope (string (unit evaluator) {}) ('"' :: '$' :: name ++ ['"'])
      (if c = '\\' then ['"'] else []) (if c = '\\' then [] else ['"']) := by
  have htake : TakesUnit (unit evaluator) scope ('$' :: name ++ ['"']) [c] ['"'] := by
    apply Piece.takesUnit evaluator hproper htext
    rintro _ - c' ⟨⟩
    decide
  by_cases hbackslash : c = '\\'
  . subst hbackslash
    have hquote : TakesUnit (unit evaluator) scope ['"'] ['"'] [] :=
      takesUnit_of_verbatim (verbatim_unit evaluator) (by decide) scope []
    have hscan : Scans (unit evaluator) (judgeString true true (.literal ['"'])) scope {}
        ('$' :: name ++ ['"']) (Draft.append {} ['"']) [] := by
      apply htake.scans_next (e := { escaping := true }) (by simp [judgeString])
      apply hquote.scans_next (e := Draft.append {} ['"']) rfl
      exact scans_nil (verbatim_unit evaluator)
    exact readsIn_quoted evaluator hscan
  . have hscan : Scans (unit evaluator) (judgeString true true (.literal ['"'])) scope {}
        ('$' :: name ++ ['"']) {} ['"'] := by
      apply htake.scans_keep
      simp only [quotedMarks, List.mem_cons, List.not_mem_nil, or_false, hbackslash] at hc
      obtain rfl | rfl := hc
      . simp [judgeString]
      . simp [judgeString]
    rw [if_neg hbackslash, if_neg hbackslash]
    exact readsIn_quoted evaluator hscan

/--
Values are data. A quoted template is read as the template with the text of its value for each
reference, whatever characters these texts have, if none of them is just one of the characters that end
the string or escape; the cursor moves after the closing quote and the spaces that follow, and nothing
is run. A value that is just such a character is not read as itself.
-/
theorem string_fills_template (evaluator : Evaluator) (scope : Table Value) :
    (∀ (template : Template) (t : Text), template.filled? scope = some t →
      (∀ name, .reference name ∈ template.pieces → ∀ c ∈ quotedMarks,
        (Piece.reference name).text? scope ≠ some [c]) →
      ∀ rest : Text, ReadsIn scope (string (unit evaluator) {})
        ('"' :: template.source ++ '"' :: rest) t rest.dropSpaces) ∧
    ∀ name, (Piece.reference name).Proper → ∀ c ∈ quotedMarks,
      (Piece.reference name).text? scope = some [c] →
      ∃ t left, ReadsIn scope (string (unit evaluator) {}) ('"' :: '$' :: name ++ ['"']) t left ∧
        t ≠ [c] := by
  constructor
  . intro template t hfilled hdata rest
    exact readsIn_template evaluator template hfilled hdata rest
  . intro name hproper c hc htext
    refine ⟨_, _, readsIn_mark evaluator hproper hc htext, ?_⟩
    split
    . next hbackslash =>
      subst hbackslash
      decide
    . exact List.cons_ne_nil c [] |>.symm

/--
The template `a$q $e$n%`.
-/
def fourValues : Template where
  pieces := [.char 'a', .reference ['q'], .char ' ', .reference ['e'], .reference ['n'], .char '%']
  proper := by simp [Piece.Proper, quotedMarks, Text.isNameChar, Text.isDigit]
  apart := by simp [Piece.Apart, Text.isNameChar, Text.isDigit]

theorem string_fills_template_values :
    let scope : Table Value := .ofList [(['q'], .text "\";\\$x".toList), (['e'], .text []),
      (['n'], .int (-5)), (['s'], .text [';'])]
    let read := string (unit (Evaluator.ofLevel Standard.registry 1)) {}
    ReadsIn scope read "\"a$q $e$n%\"  b".toList "a\";\\$x -5%".toList ['b'] ∧
      ∃ t left, ReadsIn scope read "\"$s\"".toList t left ∧ t ≠ [';'] := by
  intro scope read
  have hfilled : fourValues.filled? scope = some "a\";\\$x -5%".toList := by decide +kernel
  have hall : (fourValues.pieces.all fun piece => quotedMarks.all fun c =>
      piece.text? scope != some [c]) = true := by
    decide +kernel
  have hdata : ∀ piece ∈ fourValues.pieces, ∀ c ∈ quotedMarks, piece.text? scope ≠ some [c] := by
    simpa only [List.all_eq_true, bne_iff_ne] using hall
  have hproper : (Piece.reference ['s']).Proper := by
    simp [Piece.Proper, Text.isNameChar, Text.isDigit]
  exact ⟨(string_fills_template _ scope).1 fourValues _ hfilled (fun name => hdata (.reference name))
      "  b".toList,
    (string_fills_template _ scope).2 ['s'] hproper ';' (by decide) rfl⟩

end LineScript
