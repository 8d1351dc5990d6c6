import LineScript.Proofs.Delimited
import Mathlib.Data.List.Induction

/-!
This module contains the arguments of a command, read off literal text. The text of a statement ends
before its semicolon, or at the end of the line. A read of it either leaves some of that text, or goes
on to the end of the statement, and then the semicolon and the spaces after it are gone too. What is
read never depends on what comes after.
-/

namespace LineScript

namespace Text

/--
The text has no semicolon, no backslash and no dollar sign.
-/
def Bare (t : Text) : Prop := ∀ c ∈ t, c ≠ ';' ∧ c ≠ '\\' ∧ c ≠ '$'

instance (t : Text) : Decidable t.Bare :=
  List.decidableBAll (fun c => c ≠ ';' ∧ c ≠ '\\' ∧ c ≠ '$') t

/--
What comes after the text of a statement: a semicolon and anything, or nothing.
-/
inductive Closes : Text → Prop
  | nil : Closes []
  | semicolon (more : Text) : Closes (';' :: more)

/--
The text ahead after a read that left some text of the statement, or went on to its end.
-/
def resume (tail : Text) : Option Text → Text
  | some left => left ++ tail
  | none => dropSpaces (tail.drop 1)

theorem Bare.of_subset {t t' : Text} (h : t.Bare) (hsub : ∀ c ∈ t', c ∈ t) : t'.Bare :=
  fun c hc => h c (hsub c hc)

theorem Bare.dropSpaces {t : Text} (h : t.Bare) : Bare t.dropSpaces :=
  h.of_subset fun _ => mem_of_mem_dropSpaces

theorem Closes.dropSpaces_eq {tail : Text} (h : Closes tail) : tail.dropSpaces = tail := by
  cases h with
  | nil => rfl
  | semicolon more => rfl

theorem Closes.dropSpaces_append {tail : Text} (h : Closes tail) (t : Text) :
    (t ++ tail).dropSpaces = t.dropSpaces ++ tail :=
  Text.dropSpaces_append h.dropSpaces_eq t

theorem dropWhile_eq_self {p : Char → Bool} {t : Text} (h : t.takeWhile p = []) :
    t.dropWhile p = t :=
  List.dropWhile_eq_self_iff.mpr (List.takeWhile_eq_nil_iff.mp h)

theorem ne_of_isDigit {c d : Char} (hc : isDigit c = true) (hd : isDigit d = false) : c ≠ d := by
  rintro rfl
  rw [hc] at hd
  cases hd

end Text

def Numeral.signed (negative : Bool) (digits : Text) : Int :=
  if negative then -(toNat digits : Int) else toNat digits

namespace Argument

/--
A string that goes on to the character `stop`, and what is left after it.
-/
def upTo (stop : Char) (t : Text) : Text × Option Text :=
  (t.takeWhile (· != stop),
    match t.dropWhile (· != stop) with
    | [] => none
    | _ :: rest => some (Text.dropSpaces rest))

def string (t : Text) : Text × Option Text :=
  match t.dropSpaces with
  | '"' :: body => upTo '"' body
  | body => upTo ' ' body

def value (negative : Bool) (digits : Text) : Option Int :=
  if digits.isEmpty then none else some (Numeral.signed negative digits)

/--
An integer after its sign. If no digit is there, the sign is left too, unless the text ends with it.
-/
def unsigned (negative : Bool) (start t : Text) : Option Int × Option Text :=
  let digits := t.takeWhile Text.isDigit
  (value negative digits,
    match t.dropWhile Text.isDigit with
    | [] => none
    | rest => some (if digits.isEmpty then start else Text.dropSpaces rest))

theorem unsigned_of_no_digit {negative : Bool} {start t : Text} (hdigits : t.takeWhile Text.isDigit = [])
    (hne : t ≠ []) : unsigned negative start t = (none, some start) := by
  unfold unsigned
  rw [Text.dropWhile_eq_self hdigits, hdigits]
  cases t with
  | nil => exact absurd rfl hne
  | cons c rest => rfl

theorem left_unsigned {negative : Bool} {start t rest : Text} {c : Char}
    (hdrop : t.dropWhile Text.isDigit = c :: rest) (hdigits : t.takeWhile Text.isDigit ≠ []) :
    (unsigned negative start t).2 = some (Text.dropSpaces (c :: rest)) := by
  unfold unsigned
  rw [hdrop]
  simp [hdigits]

theorem resume_unsigned {negative : Bool} {start t tail : Text} (htail : tail.Closes)
    (hstart : start.dropSpaces = start)
    (hsigned : t.takeWhile Text.isDigit = [] → t.dropWhile Text.isDigit ≠ [] → start = t) :
    Text.dropSpaces (if t.dropWhile Text.isDigit = [] then tail.drop 1
      else t.dropWhile Text.isDigit ++ tail) = Text.resume tail (unsigned negative start t).2 := by
  cases hdrop : t.dropWhile Text.isDigit with
  | nil =>
    unfold unsigned
    rw [hdrop]
    rfl
  | cons c rest =>
    rw [if_neg (by simp), htail.dropSpaces_append]
    by_cases hempty : t.takeWhile Text.isDigit = []
    . have heq : start = t := hsigned hempty (by simp [hdrop])
      have ht : c :: rest = t := hdrop.symm.trans (Text.dropWhile_eq_self hempty)
      rw [unsigned_of_no_digit hempty (by simp [← ht]), ht, ← heq, hstart]
      rfl
    . rw [left_unsigned hdrop hempty]
      rfl

def int (t : Text) : Option Int × Option Text :=
  match t.dropSpaces with
  | '-' :: body => unsigned true t.dropSpaces body
  | body => unsigned false body body

theorem upTo_of_not_mem {stop : Char} {w : Text} (h : ∀ c ∈ w, c ≠ stop) : upTo stop w = (w, none) := by
  have hpos : ∀ c ∈ w, (c != stop) = true := fun c hc => by simpa using h c hc
  unfold upTo
  rw [List.takeWhile_eq_self_iff.mpr hpos, List.dropWhile_eq_nil_iff.mpr hpos]

theorem upTo_append {stop : Char} {w : Text} (h : ∀ c ∈ w, c ≠ stop) (t : Text) :
    upTo stop (w ++ stop :: t) = (w, some t.dropSpaces) := by
  have hpos : ∀ c ∈ w, (c != stop) = true := fun c hc => by simpa using h c hc
  unfold upTo
  rw [List.takeWhile_append_of_pos hpos, List.dropWhile_append_of_pos hpos]
  simp

theorem string_quoted (t : Text) : string ('"' :: t) = upTo '"' t := rfl

theorem string_unquoted {c : Char} (hspace : c ≠ ' ') (hquote : c ≠ '"') (t : Text) :
    string (c :: t) = upTo ' ' (c :: t) := by
  unfold string
  rw [Text.dropSpaces_cons hspace]
  split
  . next heq =>
    cases heq
    exact absurd rfl hquote
  . rfl

theorem string_word {w : Text} (hne : w ≠ []) (hquote : w.head? ≠ some '"') (hspace : ∀ c ∈ w, c ≠ ' ') :
    string w = (w, none) ∧ ∀ t : Text, string (w ++ ' ' :: t) = (w, some t.dropSpaces) := by
  cases w with
  | nil => exact absurd rfl hne
  | cons c w =>
    have hc : c ≠ ' ' := hspace c List.mem_cons_self
    have hquote : c ≠ '"' := by simpa using hquote
    constructor
    . rw [string_unquoted hc hquote, upTo_of_not_mem hspace]
    . intro t
      rw [List.cons_append, string_unquoted hc hquote, ← List.cons_append, upTo_append hspace]

theorem unsigned_append {negative : Bool} {start digits rest : Text}
    (hdigits : ∀ c ∈ digits, Text.isDigit c = true) (hne : digits ≠ [])
    (hrest : ∀ c, rest.head? = some c → Text.isDigit c = false) :
    unsigned negative start (digits ++ rest) =
      (value negative digits, if rest = [] then none else some rest.dropSpaces) := by
  have hcut : rest.takeWhile Text.isDigit = [] ∧ rest.dropWhile Text.isDigit = rest := by
    cases rest with
    | nil => exact ⟨rfl, rfl⟩
    | cons c rest => simp [hrest c rfl]
  unfold unsigned
  rw [List.takeWhile_append_of_pos hdigits, List.dropWhile_append_of_pos hdigits, hcut.1, hcut.2]
  cases rest <;> simp [hne]

theorem int_unsigned {c : Char} (hspace : c ≠ ' ') (hsign : c ≠ '-') (t : Text) :
    int (c :: t) = unsigned false (c :: t) (c :: t) := by
  unfold int
  rw [Text.dropSpaces_cons hspace]
  split
  . next heq =>
    cases heq
    exact absurd rfl hsign
  . rfl

theorem int_dropSpaces (t : Text) : int t.dropSpaces = int t := by
  unfold int
  rw [Text.dropSpaces_dropSpaces]

theorem int_cases (t : Text) :
    (∃ body, t.dropSpaces = '-' :: body ∧ int t = unsigned true t.dropSpaces body) ∨
      ((∀ body, t.dropSpaces ≠ '-' :: body) ∧ int t = unsigned false t.dropSpaces t.dropSpaces) := by
  unfold int
  split
  . next body hsign => exact Or.inl ⟨body, hsign, rfl⟩
  . next hsign => exact Or.inr ⟨hsign, rfl⟩

theorem left_unsigned_eq_none {negative : Bool} {start t : Text} :
    (unsigned negative start t).2 = none ↔ ∀ c ∈ t, Text.isDigit c = true := by
  rw [← List.dropWhile_eq_nil_iff]
  unfold unsigned
  cases t.dropWhile Text.isDigit <;> simp

theorem mem_of_mem_left_int {t left : Text} (h : (int t).2 = some left) {c : Char} (hc : c ∈ left) :
    c ∈ t := by
  have hunsigned : ∀ {negative : Bool} {body : Text}, (unsigned negative t.dropSpaces body).2 = some left →
      (∀ c ∈ body, c ∈ t.dropSpaces) → c ∈ t.dropSpaces := by
    intro negative body hleft hbody
    unfold unsigned at hleft
    split at hleft
    . cases hleft
    . cases hleft
      split at hc
      . exact hc
      . exact hbody c ((List.dropWhile_sublist _).mem (Text.mem_of_mem_dropSpaces hc))
  apply Text.mem_of_mem_dropSpaces
  obtain ⟨body, hsign, hint⟩ | ⟨-, hint⟩ := int_cases t
  . rw [hint] at h
    exact hunsigned h fun c hc => hsign ▸ List.mem_cons_of_mem '-' hc
  . rw [hint] at h
    exact hunsigned h fun c hc => hc

theorem int_append {negative : Bool} {digits rest : Text}
    (hdigits : ∀ c ∈ digits, Text.isDigit c = true) (hne : digits ≠ [])
    (hrest : ∀ c, rest.head? = some c → Text.isDigit c = false) :
    int ((if negative then ['-'] else []) ++ digits ++ rest) =
      (value negative digits, if rest = [] then none else some rest.dropSpaces) := by
  cases negative with
  | true => exact unsigned_append hdigits hne hrest
  | false =>
    cases digits with
    | nil => exact absurd rfl hne
    | cons c digits =>
      have hdigit : Text.isDigit c = true := hdigits c List.mem_cons_self
      have hint := int_unsigned (Text.ne_of_isDigit hdigit (by decide))
        (Text.ne_of_isDigit hdigit (by decide)) (digits ++ rest)
      exact hint.trans (unsigned_append hdigits hne hrest)

end Argument

namespace Read

open Eval

variable {reader : Eval Value} {A tail : Text}

theorem reads_token_absent_of_closes {c : Char} (hc : c ≠ ';') {t : Text} (ht : ∀ body, t ≠ c :: body)
    (htail : tail.Closes) : Reads (token [c]) (t ++ tail) false (t ++ tail) := by
  apply reads_token_absent
  intro hprefix
  cases t with
  | nil =>
    cases htail with
    | nil => simp at hprefix
    | semicolon more =>
      have : c = ';' := by simpa using hprefix
      exact hc this
  | cons c' body =>
    have : c = c' := by simpa using hprefix
    exact ht body (this ▸ rfl)

theorem scanText_upTo (stop : Char) (hstop : stop ≠ ';' ∧ stop ≠ '$') (keepStop : Bool)
    (hkeep : keepStop = false → stop = ' ') (hbare : A.Bare) (htail : tail.Closes) :
    ∃ rest, scanText (· != '$') (judgeString true keepStop (.literal [stop])) {} (A ++ tail) =
        some (Draft.append {} (Argument.upTo stop A).1, rest) ∧
      Text.dropSpaces rest = Text.resume tail (Argument.upTo stop A).2 := by
  have hw : ∀ c ∈ A.takeWhile (· != stop), (c != '$') = true ∧ (true = true → c ≠ ';') ∧
      c ≠ '\\' ∧ (Matcher.literal [stop]).accepts (.text [c]) = false := by
    intro c hc
    obtain ⟨hsemicolon, hbackslash, hdollar⟩ := hbare c ((List.takeWhile_sublist _).mem hc)
    have hne : (c != stop) = true := List.mem_takeWhile_imp (p := (· != stop)) hc
    refine ⟨by simpa using hdollar, fun _ => hsemicolon, hbackslash, ?_⟩
    simpa using hne
  have happend := scanText_string keepStop hw (A.dropWhile (· != stop) ++ tail)
  rw [← List.append_assoc, List.takeWhile_append_dropWhile] at happend
  rw [happend]
  unfold Argument.upTo
  cases hdrop : A.dropWhile (· != stop) with
  | nil =>
    cases htail with
    | nil => exact ⟨[], rfl, rfl⟩
    | semicolon more => exact ⟨more, scanText_semicolon rfl rfl more, rfl⟩
  | cons c rest =>
    have hc : c = stop := by
      have hhead := Text.eq_false_of_head?_dropWhile (congrArg List.head? hdrop)
      simpa using hhead
    subst hc
    refine ⟨_, scanText_stop (by simpa using hstop.2) hstop.1 (by simp) rfl (rest ++ tail), ?_⟩
    have hresume : Text.dropSpaces (rest ++ tail) = Text.resume tail (some (Text.dropSpaces rest)) :=
      htail.dropSpaces_append rest
    refine Eq.trans ?_ hresume
    cases hkept : keepStop with
    | true => rfl
    | false =>
      rw [hkeep hkept]
      rfl

theorem reads_argument_string (hreader : Verbatim reader (· != '$')) (hbare : A.Bare)
    (htail : tail.Closes) :
    Reads (string reader {}) (A ++ tail) (Argument.string A).1
      (Text.resume tail (Argument.string A).2) := by
  have hbare' : Text.Bare A.dropSpaces := hbare.dropSpaces
  unfold Argument.string
  split
  . next body hquote =>
    have hmatcher : Reads (StringOptions.matcher {}) (A ++ tail).dropSpaces (.literal ['"'])
        (body ++ tail) := by
      rw [htail.dropSpaces_append, hquote]
      exact Reads.bind (reads_token ['"'] (body ++ tail)) (reads_pure _ _)
    have hbody : Text.Bare body :=
      hbare'.of_subset fun c hc => hquote ▸ List.mem_cons_of_mem _ hc
    obtain ⟨rest, hscan, hrest⟩ := scanText_upTo '"' (by decide) true nofun hbody htail
    rw [← text_append_empty (Argument.upTo '"' body).1, ← hrest]
    exact reads_string hreader rfl hmatcher hscan
  . next hquote =>
    have hmatcher : Reads (StringOptions.matcher {}) (A ++ tail).dropSpaces (.literal [' '])
        (A.dropSpaces ++ tail) := by
      rw [htail.dropSpaces_append]
      exact Reads.bind (reads_token_absent_of_closes (by decide) hquote htail) (reads_pure _ _)
    obtain ⟨rest, hscan, hrest⟩ := scanText_upTo ' ' (by decide) false (fun _ => rfl) hbare' htail
    rw [← text_append_empty (Argument.upTo ' ' A.dropSpaces).1, ← hrest]
    exact reads_string hreader rfl hmatcher hscan

theorem reads_argument_line (hreader : Verbatim reader (· != '$')) (hbare : A.Bare)
    (htail : tail.Closes) :
    Reads (string reader { stop := some .never }) (A ++ tail) A.dropSpaces
      (Text.resume tail none) := by
  have hw : ∀ c ∈ A.dropSpaces, (c != '$') = true ∧ (true = true → c ≠ ';') ∧ c ≠ '\\' ∧
      Matcher.never.accepts (.text [c]) = false := by
    intro c hc
    obtain ⟨hsemicolon, hbackslash, hdollar⟩ := hbare c (Text.mem_of_mem_dropSpaces hc)
    exact ⟨by simpa using hdollar, fun _ => hsemicolon, hbackslash, rfl⟩
  have hscan : scanText (· != '$') (judgeString true true .never) {} (A.dropSpaces ++ tail) =
      some (Draft.append {} A.dropSpaces, tail.drop 1) := by
    rw [scanText_string true hw]
    cases htail with
    | nil => rfl
    | semicolon more => exact scanText_semicolon rfl rfl more
  have hmatcher : Reads (StringOptions.matcher { stop := some .never }) (A ++ tail).dropSpaces .never
      (A.dropSpaces ++ tail) := by
    rw [htail.dropSpaces_append]
    exact reads_pure _ _
  have hstring := reads_string hreader rfl hmatcher hscan
  rw [text_append_empty] at hstring
  exact hstring

/--
The digits of a text, as the read of digits gives them.
-/
def Digits.ofText (digits : Text) (ended : Bool) : Digits where
  value := if digits.isEmpty then none else some (Numeral.toNat digits)
  places := digits.length
  ended := ended

theorem getD_value_ofText (digits : Text) (ended : Bool) :
    (Digits.ofText digits ended).value.getD 0 = Numeral.toNat digits := by
  cases digits <;> rfl

theorem foldl_push_eq (digits : Text) :
    digits.foldl (fun d c => d.push (Numeral.toNat [c])) {} = Digits.ofText digits false := by
  induction digits using List.reverseRecOn with
  | nil => rfl
  | append_singleton digits c ih =>
    rw [List.foldl_append, ih, List.foldl_cons, List.foldl_nil, Digits.push, getD_value_ofText]
    simp [Digits.ofText, Numeral.toNat]

/--
Is there a semicolon that ends the read?
-/
def Options.endsAt (options : Options) (t : Text) : Bool :=
  options.endAtSemicolon && t.head? == some ';'

/--
The text after the semicolon that ends the read, if there is one.
-/
def Options.afterEnd (options : Options) (t : Text) : Text := if options.endsAt t then t.tail else t

theorem judgeDigit_of_isDigit {endAtSemicolon : Bool} {c : Char} (hdigit : Text.isDigit c = true) :
    (c != '$') = true ∧
      ∀ d, judgeDigit endAtSemicolon d [c] = .next (d.push (Numeral.toNat [c])) := by
  have hdollar : c ≠ '$' := Text.ne_of_isDigit hdigit (by decide)
  have hsemicolon : c ≠ ';' := Text.ne_of_isDigit hdigit (by decide)
  refine ⟨by simpa using hdollar, fun d => ?_⟩
  simp [judgeDigit, hsemicolon, Numeral.isNumeral, hdigit, Numeral.digitLimit]

theorem scanText_digits_append {digits after : Text} (hdigits : ∀ c ∈ digits, Text.isDigit c = true)
    (hafter : ∀ c, after.head? = some c → c ≠ '$' ∧ Text.isDigit c = false) (options : Options) :
    scanText (· != '$') (judgeDigit options.endAtSemicolon) {} (digits ++ after) =
      some (.ofText digits (options.endsAt after), options.afterEnd after) := by
  rw [scanText_append fun c hc => judgeDigit_of_isDigit (hdigits c hc), foldl_push_eq]
  unfold Options.afterEnd Options.endsAt
  cases after with
  | nil => simp [scanText]
  | cons c after =>
    obtain ⟨hdollar, hdigit⟩ := hafter c rfl
    by_cases hend : options.endAtSemicolon = true ∧ c = ';'
    . obtain ⟨hend, rfl⟩ := hend
      simp [scanText, judgeDigit, hend, Digits.ofText]
    . have hend' : (options.endAtSemicolon && c == ';') = false := by
        rw [← Bool.not_eq_true]
        simpa using hend
      simp [scanText, judgeDigit, hdollar, hdigit, hend, hend', Numeral.isNumeral]

theorem scanText_digits (hbare : A.Bare) (htail : tail.Closes) :
    ∃ d, scanText (· != '$') (judgeDigit true) {} (A ++ tail) =
        some (d, if A.dropWhile Text.isDigit = [] then tail.drop 1
          else A.dropWhile Text.isDigit ++ tail) ∧
      d.value = (if (A.takeWhile Text.isDigit).isEmpty then none
        else some (Numeral.toNat (A.takeWhile Text.isDigit))) ∧
      (d.ended = true ↔ A.dropWhile Text.isDigit = [] ∧ tail ≠ []) := by
  have hdigits : ∀ c ∈ A.takeWhile Text.isDigit, Text.isDigit c = true :=
    fun c hc => List.mem_takeWhile_imp hc
  have hsplit : A ++ tail = A.takeWhile Text.isDigit ++ (A.dropWhile Text.isDigit ++ tail) := by
    rw [← List.append_assoc, List.takeWhile_append_dropWhile]
  rw [hsplit]
  cases hdrop : A.dropWhile Text.isDigit with
  | nil =>
    cases htail with
    | nil =>
      have hafter : ∀ c, ([] : Text).head? = some c → c ≠ '$' ∧ Text.isDigit c = false := nofun
      exact ⟨_, scanText_digits_append hdigits hafter {}, rfl, by simp [Digits.ofText, Options.endsAt]⟩
    | semicolon more =>
      have hafter : ∀ c, (';' :: more).head? = some c → c ≠ '$' ∧ Text.isDigit c = false := by
        rintro c ⟨⟩
        decide
      exact ⟨_, scanText_digits_append hdigits hafter {}, rfl, by simp [Digits.ofText, Options.endsAt]⟩
  | cons c rest =>
    obtain ⟨hsemicolon, -, hdollar⟩ :=
      hbare c ((List.dropWhile_sublist _).mem (hdrop ▸ List.mem_cons_self))
    have hafter : ∀ c', (c :: rest ++ tail).head? = some c' → c' ≠ '$' ∧ Text.isDigit c' = false := by
      rintro c' ⟨⟩
      exact ⟨hdollar, Text.eq_false_of_head?_dropWhile (congrArg List.head? hdrop)⟩
    have hends : Options.endsAt {} (c :: rest ++ tail) = false := by
      simp [Options.endsAt, hsemicolon]
    have hscan := scanText_digits_append hdigits hafter {}
    unfold Options.afterEnd at hscan
    rw [hends] at hscan
    exact ⟨_, hscan, rfl, by simp [Digits.ofText]⟩

theorem reads_argument_sign (htail : tail.Closes) :
    ∃ negative body, Reads (token ['-']) (A.dropSpaces ++ tail) negative (body ++ tail) ∧
      A.dropSpaces = (if negative then '-' :: body else body) ∧
      Argument.int A = Argument.unsigned negative A.dropSpaces body := by
  obtain ⟨body, hsign, hint⟩ | ⟨hsign, hint⟩ := Argument.int_cases A
  . refine ⟨true, body, ?_, hsign, hint⟩
    rw [hsign]
    exact reads_token ['-'] (body ++ tail)
  . exact ⟨false, A.dropSpaces, reads_token_absent_of_closes (by decide) hsign htail, rfl, hint⟩

/--
An integer is read off the text of its statement. The exception is a sign at the end of the line,
which is not taken for the end of a statement.
-/
theorem reads_argument_int (hreader : Verbatim reader (· != '$')) (hbare : A.Bare)
    (htail : tail.Closes) (hend : A.dropSpaces ≠ ['-'] ∨ tail ≠ []) :
    Reads (int reader {}) (A ++ tail) (Argument.int A).1 (Text.resume tail (Argument.int A).2) := by
  obtain ⟨negative, body, hsign, hstart, hint⟩ := reads_argument_sign (A := A) htail
  have hbody : Text.Bare body := by
    apply hbare.of_subset
    intro c hc
    apply Text.mem_of_mem_dropSpaces
    rw [hstart]
    cases negative <;> simp [hc]
  obtain ⟨d, hscan, hvalue, hended⟩ := scanText_digits hbody htail
  have hdigits : Reads (digits reader {}) (body ++ tail) d _ := reads_scan hreader hscan
  have hmap : d.value.map (fun n => if negative then -(n : Int) else n) =
      Argument.value negative (body.takeWhile Text.isDigit) := by
    rw [hvalue]
    unfold Argument.value
    cases (body.takeWhile Text.isDigit).isEmpty <;> rfl
  have htrim : Options.trim {} (A ++ tail) = A.dropSpaces ++ tail := htail.dropSpaces_append A
  have hlead := reads_lead_of_digits hsign hdigits
  rw [← htrim] at hlead
  have hread := reads_int hlead
  simp only [Lead.int, hmap, htrim] at hread
  rw [hint]
  by_cases hback : (d.value.isNone && negative && !d.ended) = true
  . -- a sign without digits is given back, and the text ahead is what it was before the sign
    have hspaces : Options.trim {} (A.dropSpaces ++ tail) = A.dropSpaces ++ tail := by
      refine (htail.dropSpaces_append A.dropSpaces).trans ?_
      rw [Text.dropSpaces_dropSpaces]
    rw [if_pos hback, hspaces] at hread
    simp only [Bool.and_eq_true, Option.isNone_iff_eq_none, Bool.not_eq_true'] at hback
    obtain ⟨⟨hnone, rfl⟩, hgoes⟩ := hback
    have hempty : body.takeWhile Text.isDigit = [] := by
      rw [hvalue] at hnone
      simpa using hnone
    have hne : body ≠ [] := by
      rintro rfl
      cases htail with
      | nil => exact hend.elim (fun h => h hstart) (fun h => h rfl)
      | semicolon more =>
        have hended' := hended.mpr ⟨rfl, by simp⟩
        rw [hgoes] at hended'
        cases hended'
    rw [Argument.unsigned_of_no_digit hempty hne]
    rw [hempty] at hread
    exact hread
  . rw [if_neg hback] at hread
    have hsigned : body.takeWhile Text.isDigit = [] → body.dropWhile Text.isDigit ≠ [] →
        A.dropSpaces = body := by
      intro hempty hdrop
      have hnone : d.value = none := by
        rw [hvalue, hempty]
        rfl
      have hgoes : d.ended = false := by
        rw [← Bool.not_eq_true, hended]
        exact fun h => hdrop h.1
      have hpositive : negative = false := by simpa [hnone, hgoes] using hback
      rw [hstart, hpositive]
      rfl
    rw [← Argument.resume_unsigned htail (Text.dropSpaces_dropSpaces A) hsigned]
    exact hread

end Read

end LineScript
