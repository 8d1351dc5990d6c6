import LineScript.Proofs.Agreement
import LineScript.Proofs.Numerals

/-!
This module contains the grammar of numbers. Off literal text the reads of an integer and of a number
take the longest literal of their grammar that the text starts with, and give the number that it
denotes.
-/

namespace LineScript

theorem Numeral.toNat_append (t t' : Text) :
    toNat (t ++ t') = toNat t * Nat.pow 10 t'.length + toNat t' := by
  simp only [toNat_eq_ofDigitChars, Nat.ofDigitChars_append]
  rw [Nat.ofDigitChars_eq_ofDigitChars_zero, Nat.mul_comm]
  rfl

/--
How a number is written: digits and a fraction after an optional minus sign. There are digits or there
is a fraction, and a fraction has digits.
-/
structure Literal where
  negative : Bool
  whole : Text
  fraction : Option Text
  isDigit_whole : ∀ c ∈ whole, Text.isDigit c = true
  isDigit_fraction : ∀ digits ∈ fraction, ∀ c ∈ digits, Text.isDigit c = true
  whole_ne_nil : fraction = none → whole ≠ []
  fraction_ne_nil : ∀ digits ∈ fraction, digits ≠ []

namespace Literal

def sign (negative : Bool) : Text := if negative then ['-'] else []

/--
The point of a fraction and its digits.
-/
def point : Option Text → Text
  | none => []
  | some digits => '.' :: digits

def text (l : Literal) : Text := sign l.negative ++ (l.whole ++ point l.fraction)

/--
Does the literal denote an integer? Then it has no fraction.
-/
def IsInt (l : Literal) : Prop := l.fraction = none

/--
The integer that a literal without a fraction denotes.
-/
def int (l : Literal) : Int := Numeral.signed l.negative l.whole

/--
The number that a literal denotes; `none` if it is too large. A fraction makes it a quotient: the digits
before and after the point are those of its numerator.
-/
def number? (l : Literal) : Option Read.Number :=
  match l.fraction with
  | none => some (.whole l.int)
  | some digits =>
    (Binary64.ofRatio (Numeral.toNat (l.whole ++ digits)) (Nat.pow 10 digits.length)).map fun x =>
      .decimal (if l.negative then x.neg else x)

/--
The literal is the longest one of the grammar that the text starts with, and `rest` comes after it.
-/
structure Leads (grammar : Literal → Prop) (l : Literal) (t rest : Text) : Prop where
  mem : grammar l
  eq_append : t = l.text ++ rest
  longest : ∀ l', grammar l' → l'.text <+: t → l'.text.length ≤ l.text.length

variable {grammar : Literal → Prop} {l : Literal} {t rest : Text}

/--
A text that starts with a literal starts with a longest one.
-/
theorem exists_leads {l : Literal} (hl : grammar l) (hstarts : l.text <+: t) :
    ∃ l rest, Leads grammar l t rest := by
  by_cases hlongest : ∀ l', grammar l' → l'.text <+: t → l'.text.length ≤ l.text.length
  . obtain ⟨rest, hrest⟩ := hstarts
    exact ⟨l, rest, hl, hrest.symm, hlongest⟩
  . simp only [not_forall, Nat.not_le] at hlongest
    obtain ⟨l', hl', hstarts', hlonger⟩ := hlongest
    exact exists_leads hl' hstarts'
termination_by t.length - l.text.length
decreasing_by
  have := hstarts'.length_le
  omega

theorem Leads.not_longer (h : Leads grammar l t rest) (l' : Literal) (hl' : grammar l')
    {more : Text} (hmore : more ≠ []) (htext : l'.text = l.text ++ more) : ¬ more <+: rest := by
  rintro ⟨rest', rfl⟩
  have hle := h.longest l' hl' ⟨rest', by rw [h.eq_append, htext, List.append_assoc]⟩
  have hpos := List.length_pos_iff.mpr hmore
  rw [htext, List.length_append] at hle
  omega

/--
The literal of an integer.
-/
def ofDigits (negative : Bool) (digits : Text) (hdigits : ∀ c ∈ digits, Text.isDigit c = true)
    (hne : digits ≠ []) : Literal where
  negative := negative
  whole := digits
  fraction := none
  isDigit_whole := hdigits
  isDigit_fraction := nofun
  whole_ne_nil := fun _ => hne
  fraction_ne_nil := nofun

/--
The literal of a number with a fraction.
-/
def ofFraction (negative : Bool) (whole digits : Text) (hwhole : ∀ c ∈ whole, Text.isDigit c = true)
    (hdigits : ∀ c ∈ digits, Text.isDigit c = true) (hne : digits ≠ []) : Literal where
  negative := negative
  whole := whole
  fraction := some digits
  isDigit_whole := hwhole
  isDigit_fraction := by
    rintro _ ⟨⟩
    exact hdigits
  whole_ne_nil := nofun
  fraction_ne_nil := by
    rintro _ ⟨⟩
    exact hne

/--
No digit comes after the longest literal.
-/
theorem Leads.not_digit (h : Leads grammar l t rest)
    (hgrammar : ∀ l', l'.fraction.isSome = l.fraction.isSome → grammar l') :
    ∀ c, rest.head? = some c → Text.isDigit c = false := by
  intro c hc
  rw [Bool.eq_false_iff]
  intro hdigit
  -- the literal with that digit at its end would be a longer one
  refine absurd (List.singleton_prefix_iff_head?_eq_some.mpr hc) ?_
  have hsingle : ∀ d ∈ [c], Text.isDigit d = true := by simpa using hdigit
  cases hfraction : l.fraction with
  | none =>
    let l' := ofDigits l.negative (l.whole ++ [c])
      (List.forall_mem_append.mpr ⟨l.isDigit_whole, hsingle⟩) (by simp)
    have htext : l'.text = l.text ++ [c] := by simp [l', text, ofDigits, hfraction, point]
    exact h.not_longer l' (hgrammar l' (by rw [hfraction]; rfl)) (by simp) htext
  | some digits =>
    let l' := ofFraction l.negative l.whole (digits ++ [c]) l.isDigit_whole
      (List.forall_mem_append.mpr ⟨l.isDigit_fraction digits hfraction, hsingle⟩) (by simp)
    have htext : l'.text = l.text ++ [c] := by simp [l', text, ofFraction, hfraction, point]
    exact h.not_longer l' (hgrammar l' (by rw [hfraction]; rfl)) (by simp) htext

/--
No point with a digit comes after the longest literal, if that has no fraction.
-/
theorem Leads.not_fraction {more : Text} (h : Leads (fun _ => True) l t ('.' :: more))
    (hfraction : l.fraction = none) : ∀ c, more.head? = some c → Text.isDigit c = false := by
  intro c hc
  rw [Bool.eq_false_iff]
  intro hdigit
  let l' := ofFraction l.negative l.whole [c] l.isDigit_whole (by simpa using hdigit) (by simp)
  have htext : l'.text = l.text ++ ['.', c] := by simp [l', text, ofFraction, hfraction, point]
  apply h.not_longer l' trivial (by simp) htext
  exact (List.prefix_cons_inj '.').mpr (List.singleton_prefix_iff_head?_eq_some.mpr hc)

theorem mem_text {c : Char} (h : c ∈ l.text) : c = '-' ∨ c = '.' ∨ Text.isDigit c = true := by
  unfold text at h
  obtain hsign | hnumber := List.mem_append.mp h
  . left
    unfold sign at hsign
    split at hsign
    . exact List.mem_singleton.mp hsign
    . cases hsign
  . right
    obtain hwhole | hpoint := List.mem_append.mp hnumber
    . exact Or.inr (l.isDigit_whole c hwhole)
    . cases hfraction : l.fraction with
      | none =>
        rw [hfraction] at hpoint
        cases hpoint
      | some digits =>
        rw [hfraction] at hpoint
        exact (List.mem_cons.mp hpoint).imp id (l.isDigit_fraction digits hfraction c)

/--
A literal is the longest one before a character that no literal has.
-/
theorem leads_of_stop (hl : grammar l) {c : Char} (hc : c ≠ '-' ∧ c ≠ '.' ∧ Text.isDigit c = false)
    (rest : Text) : Leads grammar l (l.text ++ c :: rest) (c :: rest) := by
  refine ⟨hl, rfl, ?_⟩
  intro l' _ hstarts
  apply Nat.le_of_not_lt
  intro hlt
  have hstop : l.text ++ [c] <+: l'.text := by
    apply List.prefix_of_prefix_length_le _ hstarts
    . rw [List.length_append]
      exact hlt
    . exact ⟨rest, by rw [List.append_assoc]; rfl⟩
  have hmem : c ∈ l'.text := hstop.subset (List.mem_append_right _ List.mem_cons_self)
  obtain ⟨hminus, hpoint, hdigit⟩ := hc
  obtain rfl | rfl | h := mem_text hmem
  . exact hminus rfl
  . exact hpoint rfl
  . exact Text.ne_of_isDigit h hdigit rfl

theorem exists_sign (t : Text) :
    ∃ negative body, t = sign negative ++ body ∧ (negative = false → body.head? ≠ some '-') := by
  by_cases h : t.head? = some '-'
  . obtain ⟨body, rfl⟩ := List.head?_eq_some_iff.mp h
    exact ⟨true, body, rfl, nofun⟩
  . exact ⟨false, t, rfl, fun _ => h⟩

end Literal

namespace Eval

open Cursor

variable {α β : Type} {t rest : Text} {stop : Stop}

/--
With the text `t` ahead the computation stops early.
-/
def Stops (x : Eval α) (t : Text) (stop : Stop) : Prop :=
  ∀ s : State, s.cursor.InText → s.cursor.ahead = t → ∃ s', x s = .error stop s'

theorem Stops.bind {x : Eval α} (h : Stops x t stop) (f : α → Eval β) : Stops (x >>= f) t stop := by
  intro s hs hahead
  obtain ⟨s', hx⟩ := h s hs hahead
  exact ⟨s', bind_of_error hx⟩

theorem Reads.bind_stops {x : Eval α} {a : α} {f : α → Eval β} (hx : Reads x t a rest)
    (hf : Stops (f a) rest stop) : Stops (x >>= f) t stop := by
  intro s hs hahead
  obtain ⟨used, -, hx, hs', hahead'⟩ := hx.exists_used hs hahead
  obtain ⟨s', hf⟩ := hf _ hs' hahead'
  exact ⟨s', (bind_of_ok hx).trans hf⟩

end Eval

namespace Read

open Eval Cursor Literal

/--
The text that is left after a number.
-/
def Options.close (options : Options) (t : Text) : Text := options.trim (options.afterEnd t)

/--
The text that is left where there is no number: all of it, unless a semicolon ends the read, with a
sign before it or not.
-/
def Options.unread (options : Options) (t : Text) : Text :=
  match t with
  | ';' :: rest => if options.endAtSemicolon then options.trim rest else t
  | '-' :: ';' :: rest => if options.endAtSemicolon then options.trim rest else t
  | _ => t

theorem unread_sign_append (options : Options) {negative : Bool} {body : Text}
    (h : negative = false → body.head? ≠ some '-') :
    options.unread (sign negative ++ body) =
      if options.endsAt body then options.trim body.tail else sign negative ++ body := by
  unfold Options.unread Options.endsAt
  cases negative with
  | true =>
    cases body with
    | nil => simp [sign]
    | cons c body => by_cases hc : c = ';' <;> simp [sign, hc]
  | false =>
    cases body with
    | nil => simp [sign]
    | cons c body =>
      have hminus : c ≠ '-' := by simpa using h rfl
      by_cases hc : c = ';' <;> simp [sign, hc, hminus]

variable {α : Type} {reader : Eval Value} {options : Options} {t rest : Text}

theorem stops_delimited {part : Eval (α × Bool)} {stop : Stop}
    (hpart : Stops part (options.trim t) stop) : Stops (delimited options part) t stop := by
  unfold delimited
  apply (reads_trim options t).bind_stops
  intro s hs hahead
  rw [index_bind]
  exact hpart.bind _ s hs hahead

variable {negative : Bool} {whole digits after more : Text} {d : Digits}

theorem reads_digits (hreader : Verbatim reader (· != '$')) (digits : Text)
    (hdigits : ∀ c ∈ digits, Text.isDigit c = true)
    (hafter : ∀ c, after.head? = some c → c ≠ '$' ∧ Text.isDigit c = false) (options : Options) :
    Reads (Read.digits reader options) (digits ++ after) (.ofText digits (options.endsAt after))
      (options.afterEnd after) :=
  reads_scan hreader (scanText_digits_append hdigits hafter options)

theorem reads_lead (hreader : Verbatim reader (· != '$')) (whole : Text)
    (hsign : negative = false → (whole ++ after).head? ≠ some '-')
    (hwhole : ∀ c ∈ whole, Text.isDigit c = true)
    (hafter : ∀ c, after.head? = some c → c ≠ '$' ∧ Text.isDigit c = false) (options : Options) :
    Reads (lead reader options) (sign negative ++ (whole ++ after))
      ⟨negative, .ofText whole (options.endsAt after)⟩ (options.afterEnd after) := by
  have htoken : Reads (token ['-']) (sign negative ++ (whole ++ after)) negative (whole ++ after) := by
    cases negative with
    | true => exact reads_token ['-'] _
    | false =>
      apply reads_token_absent
      rw [List.singleton_prefix_iff_head?_eq_some]
      exact hsign rfl
  exact reads_lead_of_digits htoken (reads_digits hreader whole hwhole hafter options)

theorem reads_fraction_of_no_point (h : d.ended = true ∨ t.head? ≠ some '.') :
    Reads (fraction reader options d) t (d.value.map fun n : Nat => .whole n) t := by
  refine ⟨[], rfl, ?_⟩
  intro s hs hahead
  rw [List.length_nil, Int.natCast_zero, State.advance_zero]
  exact fraction_of_no_point reader options hs (hahead ▸ h)

/--
A point without digits is no fraction.
-/
theorem reads_fraction_of_point (hreader : Verbatim reader (· != '$')) (hended : d.ended = false)
    (hmore : ∀ c, more.head? = some c → c ≠ '$' ∧ Text.isDigit c = false) :
    Reads (fraction reader options d) ('.' :: more) (d.value.map fun n : Nat => .whole n)
      ('.' :: more) := by
  have hpoint : Reads (token ['.']) ('.' :: more) true more := reads_token ['.'] more
  have hdigits := reads_digits hreader [] nofun hmore options
  refine ⟨[], rfl, ?_⟩
  intro s hs hahead
  obtain ⟨used, -, hpoint, hs₁, h₁⟩ := hpoint.exists_used hs hahead
  obtain ⟨used', -, hdigits, -⟩ := hdigits.exists_used hs₁ h₁
  have hmove : moveTo s.cursor.index ((s.advance used.length).advance used'.length) = .ok () s := rfl
  unfold fraction
  rw [index_bind]
  simp only [hended, Bool.false_eq_true, ↓reduceIte]
  refine (bind_of_ok hpoint).trans ?_
  refine (bind_of_ok hdigits).trans ?_
  refine (bind_of_ok hmove).trans ?_
  rw [List.length_nil, Int.natCast_zero, State.advance_zero]
  cases d.value <;> rfl

/--
A point with digits is a fraction, and makes the number a quotient.
-/
theorem fraction_of_digits (hreader : Verbatim reader (· != '$'))
    (hdigits : ∀ c ∈ digits, Text.isDigit c = true) (hne : digits ≠ [])
    (hafter : ∀ c, after.head? = some c → c ≠ '$' ∧ Text.isDigit c = false) (whole : Text)
    (options : Options) :
    match Binary64.ofRatio (Numeral.toNat (whole ++ digits)) (Nat.pow 10 digits.length) with
    | some x =>
      Reads (fraction reader options (.ofText whole false)) ('.' :: (digits ++ after))
        (some (.decimal x)) (options.afterEnd after)
    | none =>
      Stops (fraction reader options (.ofText whole false)) ('.' :: (digits ++ after))
        (.failure .overflow) := by
  have hpoint : Reads (token ['.']) ('.' :: (digits ++ after)) true (digits ++ after) :=
    reads_token ['.'] (digits ++ after)
  have hread := reads_digits hreader digits hdigits hafter options
  have hvalue : (Digits.ofText digits (options.endsAt after)).value = some (Numeral.toNat digits) := by
    simp [Digits.ofText, hne]
  have hplaces : (Digits.ofText digits (options.endsAt after)).places = digits.length := rfl
  have hended : (Digits.ofText whole false).ended = false := rfl
  have hratio := Numeral.toNat_append whole digits
  rw [← getD_value_ofText whole false] at hratio
  rw [hratio]
  split
  . next x hx =>
    unfold fraction
    apply reads_index_bind
    intro point
    simp only [hended, Bool.false_eq_true, ↓reduceIte]
    apply Reads.bind hpoint
    apply Reads.bind hread
    simp only [hvalue, hplaces]
    refine Reads.bind ?_ (reads_pure _ _)
    rw [hx]
    exact reads_pure _ _
  . next hx =>
    intro s hs hahead
    unfold fraction
    rw [index_bind]
    simp only [hended, Bool.false_eq_true, ↓reduceIte]
    refine Reads.bind_stops hpoint (Reads.bind_stops hread ?_) s hs hahead
    simp only [hvalue, hplaces]
    apply Stops.bind
    rw [hx]
    exact fun s _ _ => ⟨s, rfl⟩

/--
What comes after the digits is no fraction.
-/
theorem reads_fraction_absent (hreader : Verbatim reader (· != '$')) (whole : Text)
    (hmore : ∀ more, after = '.' :: more →
      ∀ c, more.head? = some c → c ≠ '$' ∧ Text.isDigit c = false) (options : Options) :
    let d := Digits.ofText whole (options.endsAt after)
    Reads (fraction reader options d) (options.afterEnd after) (d.value.map fun n : Nat => .whole n)
      (options.afterEnd after) := by
  intro d
  -- a semicolon that ends the digits is gone, and what comes after it is not looked at
  cases hends : options.endsAt after with
  | true => exact reads_fraction_of_no_point (Or.inl hends)
  | false =>
    have hafter : options.afterEnd after = after := by
      unfold Options.afterEnd
      rw [hends]
      rfl
    rw [hafter]
    by_cases hpoint : after.head? = some '.'
    . obtain ⟨more, rfl⟩ := List.head?_eq_some_iff.mp hpoint
      exact reads_fraction_of_point hreader hends (hmore more rfl)
    . exact reads_fraction_of_no_point (Or.inr hpoint)

theorem head?_append_ne_minus (hwhole : ∀ c ∈ whole, Text.isDigit c = true)
    (hafter : whole = [] → after.head? ≠ some '-') : (whole ++ after).head? ≠ some '-' := by
  cases whole with
  | nil => exact hafter rfl
  | cons c whole =>
    intro h
    cases h
    exact Text.ne_of_isDigit (hwhole '-' List.mem_cons_self) rfl rfl

theorem ne_dollar_of_mem (ht : '$' ∉ t) {before : Text} (htext : options.trim t = before ++ after)
    {c : Char} (hc : c ∈ after) : c ≠ '$' := by
  rintro rfl
  have hmem : '$' ∈ options.trim t := htext ▸ List.mem_append_right before hc
  unfold Options.trim at hmem
  split at hmem
  . exact ht (Text.mem_of_mem_dropSpaces hmem)
  . exact ht hmem

variable {l : Literal}

theorem reads_lead_of_int (hreader : Verbatim reader (· != '$')) (ht : '$' ∉ t) (hl : l.IsInt)
    (htext : options.trim t = l.text ++ rest)
    (hrest : ∀ c, rest.head? = some c → Text.isDigit c = false) :
    Reads (lead reader options) (options.trim t)
      ⟨l.negative, .ofText l.whole (options.endsAt rest)⟩ (options.afterEnd rest) := by
  have hsplit : options.trim t = sign l.negative ++ (l.whole ++ rest) := by
    rw [htext, text, hl]
    simp [point]
  have hafter : ∀ c, rest.head? = some c → c ≠ '$' ∧ Text.isDigit c = false := by
    intro c hc
    exact ⟨ne_dollar_of_mem ht htext (List.mem_of_head? hc), hrest c hc⟩
  rw [hsplit]
  apply reads_lead hreader l.whole _ l.isDigit_whole hafter
  intro _
  exact head?_append_ne_minus l.isDigit_whole fun hnil => absurd hnil (l.whole_ne_nil hl)

theorem value_of_int (hl : l.IsInt) (ended : Bool) :
    (Digits.ofText l.whole ended).value = some (Numeral.toNat l.whole) := by
  simp [Digits.ofText, l.whole_ne_nil hl]

theorem reads_int_of_leads (hreader : Verbatim reader (· != '$')) (ht : '$' ∉ t)
    (h : l.Leads IsInt (options.trim t) rest) :
    Reads (int reader options) t (some l.int) (options.close rest) := by
  have hrest := h.not_digit fun l' hl' => by
    unfold IsInt
    rw [← Option.not_isSome_iff_eq_none, hl', h.mem]
    decide
  have hlead := reads_lead_of_int hreader ht h.mem h.eq_append hrest
  have hread := reads_int hlead
  rw [Lead.int_eq_some (value_of_int h.mem _), value_of_int h.mem] at hread
  exact hread

theorem float_of_int (hreader : Verbatim reader (· != '$')) (ht : '$' ∉ t)
    (h : l.Leads (fun _ => True) (options.trim t) rest) (hl : l.IsInt) :
    Reads (float reader options) t (some (.whole l.int)) (options.close rest) := by
  have hrest := h.not_digit fun _ _ => trivial
  have hlead := reads_lead_of_int hreader ht hl h.eq_append hrest
  have hmore : ∀ more, rest = '.' :: more →
      ∀ c, more.head? = some c → c ≠ '$' ∧ Text.isDigit c = false := by
    rintro more rfl c hc
    have hmem : c ∈ '.' :: more := List.mem_cons_of_mem _ (List.mem_of_head? hc)
    exact ⟨ne_dollar_of_mem ht h.eq_append hmem, h.not_fraction hl c hc⟩
  have hfraction := reads_fraction_absent hreader l.whole hmore options
  dsimp only at hfraction
  rw [value_of_int hl] at hfraction
  have hread := reads_float hlead hfraction
  unfold Literal.int Numeral.signed
  cases hnegative : l.negative with
  | true =>
    rw [hnegative] at hread
    exact hread
  | false =>
    rw [hnegative] at hread
    exact hread

theorem float_of_fraction (hreader : Verbatim reader (· != '$')) (ht : '$' ∉ t)
    (h : l.Leads (fun _ => True) (options.trim t) rest) {digits : Text}
    (hl : l.fraction = some digits) :
    match l.number? with
    | some x => Reads (float reader options) t (some x) (options.close rest)
    | none => Stops (float reader options) t (.failure .overflow) := by
  have htext : options.trim t = sign l.negative ++ (l.whole ++ '.' :: (digits ++ rest)) := by
    rw [h.eq_append, text, hl]
    simp [point]
  have hrest : ∀ c, rest.head? = some c → c ≠ '$' ∧ Text.isDigit c = false := by
    intro c hc
    have hmem : c ∈ rest := List.mem_of_head? hc
    exact ⟨ne_dollar_of_mem ht h.eq_append hmem, h.not_digit (fun _ _ => trivial) c hc⟩
  have hpoint : ∀ c, ('.' :: (digits ++ rest)).head? = some c → c ≠ '$' ∧ Text.isDigit c = false := by
    rintro c ⟨⟩
    decide
  have hsign : l.negative = false → (l.whole ++ '.' :: (digits ++ rest)).head? ≠ some '-' :=
    fun _ => head?_append_ne_minus l.isDigit_whole (by simp)
  have hends : options.endsAt ('.' :: (digits ++ rest)) = false := by simp [Options.endsAt]
  have hlead := reads_lead hreader l.whole hsign l.isDigit_whole hpoint options
  unfold Options.afterEnd at hlead
  rw [← htext, hends] at hlead
  have hfraction := fraction_of_digits hreader (l.isDigit_fraction digits hl)
    (l.fraction_ne_nil digits hl) hrest l.whole options
  unfold number?
  rw [hl]
  dsimp only
  cases hratio : Binary64.ofRatio (Numeral.toNat (l.whole ++ digits)) (Nat.pow 10 digits.length) with
  | some x =>
    rw [hratio] at hfraction
    have hread := reads_float hlead hfraction
    cases hnegative : l.negative with
    | true =>
      rw [hnegative] at hread
      exact hread
    | false =>
      rw [hnegative] at hread
      exact hread
  | none =>
    rw [hratio] at hfraction
    rw [float_eq_delimited]
    exact stops_delimited (Reads.bind_stops hlead (hfraction.bind _))

theorem unread_of_no_digit {body : Text} (htext : options.trim t = sign negative ++ body)
    (hsign : negative = false → body.head? ≠ some '-') {back : Bool}
    (hends : options.endsAt body = true → back = false)
    (hback : options.endsAt body = false → back = false → negative = false) :
    options.trim (if back then options.trim t else options.afterEnd body) =
      options.unread (options.trim t) := by
  have hunread := unread_sign_append options hsign
  rw [← htext] at hunread
  rw [hunread]
  unfold Options.afterEnd
  cases hend : options.endsAt body with
  | true =>
    rw [hends hend]
    rfl
  | false =>
    cases hkeep : back with
    | true => exact trim_trim options t
    | false =>
      have hbody : body = options.trim t := by
        rw [htext, hback hend hkeep]
        rfl
      rw [hbody]
      exact trim_trim options t

theorem exists_lead_of_no_int (hreader : Verbatim reader (· != '$')) (ht : '$' ∉ t)
    (hnone : ∀ l, IsInt l → ¬ l.text <+: options.trim t) :
    ∃ negative body, options.trim t = sign negative ++ body ∧
      (negative = false → body.head? ≠ some '-') ∧
      Reads (lead reader options) (options.trim t) ⟨negative, .ofText [] (options.endsAt body)⟩
        (options.afterEnd body) := by
  obtain ⟨negative, body, htext, hsign⟩ := exists_sign (options.trim t)
  refine ⟨negative, body, htext, hsign, ?_⟩
  have hbody : ∀ c, body.head? = some c → c ≠ '$' ∧ Text.isDigit c = false := by
    intro c hc
    constructor
    . exact ne_dollar_of_mem ht htext (List.mem_of_head? hc)
    . rw [Bool.eq_false_iff]
      intro hdigit
      apply hnone (ofDigits negative [c] (by simpa using hdigit) (by simp)) rfl
      rw [htext]
      exact (List.prefix_append_right_inj _).mpr (List.singleton_prefix_iff_head?_eq_some.mpr hc)
  rw [htext]
  exact reads_lead hreader [] hsign nofun hbody options

theorem reads_int_of_none (hreader : Verbatim reader (· != '$')) (ht : '$' ∉ t)
    (hnone : ∀ l, IsInt l → ¬ l.text <+: options.trim t) :
    Reads (int reader options) t none (options.unread (options.trim t)) := by
  obtain ⟨negative, body, htext, hsign, hlead⟩ := exists_lead_of_no_int hreader ht hnone
  let back := negative && !options.endsAt body
  have hends : options.endsAt body = true → back = false := by
    intro h
    simp [back, h]
  have hback : options.endsAt body = false → back = false → negative = false := by
    intro h hback
    simpa [back, h] using hback
  rw [← unread_of_no_digit htext hsign hends hback]
  exact reads_int hlead

theorem reads_float_of_none (hreader : Verbatim reader (· != '$')) (ht : '$' ∉ t)
    (hnone : ∀ l : Literal, ¬ l.text <+: options.trim t) :
    Reads (float reader options) t none (options.unread (options.trim t)) := by
  obtain ⟨negative, body, htext, hsign, hlead⟩ :=
    exists_lead_of_no_int hreader ht fun l _ => hnone l
  have hmore : ∀ more, body = '.' :: more →
      ∀ c, more.head? = some c → c ≠ '$' ∧ Text.isDigit c = false := by
    rintro more rfl c hc
    constructor
    . exact ne_dollar_of_mem ht htext (List.mem_cons_of_mem _ (List.mem_of_head? hc))
    . rw [Bool.eq_false_iff]
      intro hdigit
      apply hnone (ofFraction negative [] [c] nofun (by simpa using hdigit) (by simp))
      rw [htext]
      apply (List.prefix_append_right_inj _).mpr
      exact (List.prefix_cons_inj '.').mpr (List.singleton_prefix_iff_head?_eq_some.mpr hc)
  have hfraction := reads_fraction_absent hreader [] hmore options
  have hends : options.endsAt body = true → (!options.endsAt body) = false := by simp
  have hback : options.endsAt body = false → (!options.endsAt body) = false → negative = false := by
    intro h h'
    rw [h] at h'
    cases h'
  have hread := reads_float hlead hfraction
  rw [← unread_of_no_digit htext hsign hends hback]
  cases negative with
  | true => exact hread
  | false => exact hread

/--
The reads of an integer and of a number accept their grammars. Each takes the longest literal that the
text after the spaces starts with, and then a semicolon that comes right after it, if that ends the
read, and spaces; it gives the number that the literal denotes, unless that is too large. If there is
no literal, nothing is taken, except for a semicolon that ends the read, with a sign before it or not.
-/
theorem numbers_follow_grammar (evaluator : Evaluator) (options : Options) (t : Text) (ht : '$' ∉ t) :
    (∀ l rest, Leads IsInt l (options.trim t) rest →
      Reads (int (unit evaluator) options) t (some l.int) (options.close rest)) ∧
    ((¬ ∃ l rest, Leads IsInt l (options.trim t) rest) →
      Reads (int (unit evaluator) options) t none (options.unread (options.trim t))) ∧
    (∀ l rest, Leads (fun _ => True) l (options.trim t) rest →
      match l.number? with
      | some x => Reads (float (unit evaluator) options) t (some x) (options.close rest)
      | none => Stops (float (unit evaluator) options) t (.failure .overflow)) ∧
    ((¬ ∃ l rest, Leads (fun _ => True) l (options.trim t) rest) →
      Reads (float (unit evaluator) options) t none (options.unread (options.trim t))) := by
  have hreader := verbatim_unit evaluator
  refine ⟨?_, ?_, ?_, ?_⟩
  . intro l rest h
    exact reads_int_of_leads hreader ht h
  . intro hnone
    exact reads_int_of_none hreader ht fun l hl hstarts => hnone (exists_leads hl hstarts)
  . intro l rest h
    cases hl : l.fraction with
    | none =>
      have hnumber : l.number? = some (.whole l.int) := by
        unfold number?
        rw [hl]
      rw [hnumber]
      exact float_of_int hreader ht h hl
    | some digits => exact float_of_fraction hreader ht h hl
  . intro hnone
    exact reads_float_of_none hreader ht fun l hstarts => hnone (exists_leads trivial hstarts)

theorem numbers_follow_grammar_negative :
    let reader := unit (.ofLevel Standard.registry 1)
    Reads (int reader {}) "  -0125;  x".toList (some (-125)) ['x'] ∧
      Reads (float reader {}) "  -012.5;  x".toList
        (some (.decimal (.finite true 7036874417766400 (-49)))) ['x'] := by
  let whole := ofDigits true "0125".toList (List.all_eq_true.mp rfl) (by decide)
  let decimal := ofFraction true "012".toList ['5'] (List.all_eq_true.mp rfl) (List.all_eq_true.mp rfl)
    (by decide)
  have hint : whole.IsInt := rfl
  have hwhole : Leads IsInt whole "-0125;  x".toList ";  x".toList :=
    leads_of_stop hint (c := ';') (by decide) "  x".toList
  have hdecimal : Leads (fun _ => True) decimal "-012.5;  x".toList ";  x".toList :=
    leads_of_stop trivial (c := ';') (by decide) "  x".toList
  have hnumber : decimal.number? = some (.decimal (.finite true 7036874417766400 (-49))) := by
    decide +kernel
  obtain ⟨hread, -⟩ :=
    numbers_follow_grammar (.ofLevel Standard.registry 1) {} "  -0125;  x".toList (by decide)
  obtain ⟨-, -, hfloat, -⟩ :=
    numbers_follow_grammar (.ofLevel Standard.registry 1) {} "  -012.5;  x".toList (by decide)
  specialize hfloat decimal _ hdecimal
  rw [hnumber] at hfloat
  exact ⟨hread whole _ hwhole, hfloat⟩

end Read

end LineScript
