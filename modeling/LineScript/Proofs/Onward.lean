import LineScript.Proofs.Bounds

/-!
This module contains the proof that reading adds no weight. What is read weighs no more than the
characters that it was read from, also if it is the result of commands. So from a cursor a run only
goes on further in the same text, maybe with a loop variable that is light, or in a text that is
lighter. That nothing else is run is shown by leaving all else to another evaluator: whatever that one
does, the run is the same.
-/

namespace LineScript

open Eval Cursor Read

/--
The characters from the index `i` up to the index `j`.
-/
def Text.slice (t : Text) (i j : Int) : Text := (t.take j.toNat).drop i.toNat

theorem Cursor.Took.slice_eq {c c' : Cursor} {used : Text} (h : c.Took used c') (hc : c.InText) :
    c.buffer.slice c.index c'.index = used := by
  have hindex := h.index_eq
  have hnonneg := hc.nonneg
  have hlength : c'.index.toNat - c.index.toNat = used.length := by omega
  unfold Text.slice
  rw [List.drop_take, hlength]
  exact (List.prefix_iff_eq_take.mp h.isPrefix).symm

/--
The values of loop variables: they have a text that weighs at most one, or they are integers with too
many digits to have a text.
-/
def Value.IsElement (v : Value) : Prop :=
  (∃ t, v.text? = some t ∧ t.weight ≤ 1) ∨
    ∃ i : Int, v = .int i ∧ Numeral.digitLimit < (Numeral.ofNat i.natAbs).length

namespace Value

theorem isElement_int (i : Int) : (Value.int i).IsElement := by
  by_cases h : (Numeral.ofNat i.natAbs).length ≤ Numeral.digitLimit
  . left
    refine ⟨Numeral.ofInt i, if_pos h, ?_⟩
    rw [Numeral.weight_ofInt]
    exact Nat.zero_le 1
  . exact Or.inr ⟨i, rfl, by omega⟩

theorem Plain.isElement_get {v : Value} (h : v.Plain) {elements : Elements}
    (helements : v.elements? = some elements) (k : Nat) : (elements.get k).IsElement := by
  cases v with
  | text t =>
    cases helements
    left
    simp only [Elements.ofList, List.getElem?_map]
    cases t[k]? with
    | none => exact ⟨_, rfl, Nat.zero_le 1⟩
    | some c => exact ⟨[c], rfl, Text.weight_singleton_le c⟩
  | range start stop step =>
    cases helements
    exact isElement_int _
  | null | finish => cases helements
  | bool | int | float | list => cases h

theorem IsElement.weighs {v : Value} (h : v.IsElement) : v.Weighs 1 := by
  obtain ⟨t, ht, hweight⟩ | ⟨i, rfl, -⟩ := h
  . intro t' ht'
    cases ht.symm.trans ht'
    exact hweight
  . exact weighs_int i 1

end Value

/--
The cursors with which a run goes on from `c`.
-/
inductive Cursor.Onward (c : Cursor) : Cursor → Prop
  /-- Further on in the same text. -/
  | further {used : Text} {c' : Cursor} (htook : c.Took used c') (hne : used ≠ []) : Onward c c'
  /-- Further on in the same text, with an element of a loop in a variable. -/
  | element {used : Text} {c' : Cursor} (htook : c.Took used c') (hne : used ≠ []) (name : Text)
    {v : Value} (hv : v.IsElement) : Onward c (c'.assign name v)
  /-- At the start of a lighter text. -/
  | spawned {text : Text} (hlight : text.weight < c.buffer.weight) : Onward c (c.spawn text)

namespace Cursor

variable {c c' d : Cursor} {used text : Text}

theorem Onward.inText (h : c.Onward c') (hc : c.InText) : c'.InText := by
  cases h with
  | further htook _ => exact htook.inText hc
  | element htook _ _ _ => exact ⟨(htook.inText hc).nonneg, (htook.inText hc).le_length⟩
  | spawned _ => exact spawn_inText c _

theorem Onward.light (h : c.Onward c') (hc : c.Light) : c'.Light := by
  cases h with
  | further htook _ => exact htook.light_eq ▸ hc
  | element htook _ name hv =>
    apply Light.assign
    . exact htook.light_eq ▸ hc
    . exact hv.weighs
  | spawned _ => exact hc

theorem Took.spawn_eq (h : c.Took used c') (text : Text) : c'.spawn text = c.spawn text := by
  unfold spawn
  rw [h.scope_eq]

theorem Took.onward (h : c.Took used c') (hc : c.InText) (honward : c'.Onward d) : c.Onward d := by
  cases honward with
  | further htook hne => exact .further (h.trans htook hc) (by simp [hne])
  | element htook hne name hv => exact .element (h.trans htook hc) (by simp [hne]) name hv
  | spawned hlight =>
    rw [h.spawn_eq]
    exact .spawned (h.buffer_eq ▸ hlight)

theorem weight_ahead_le (c : Cursor) : c.ahead.weight ≤ c.buffer.weight :=
  (List.drop_sublist _ _).countP_le

theorem Took.weight_lt (h : c.Took used c') (hc : c.InText) (hused : 0 < used.weight)
    (htext : text.weight ≤ c'.ahead.weight) : text.weight < c.buffer.weight := by
  have hle := c.weight_ahead_le
  rw [h.ahead_eq hc, Text.weight_append] at hle
  omega

theorem Took.onward_spawn (h : c.Took used c') (hc : c.InText) (hused : 0 < used.weight)
    (htext : text.weight ≤ c'.ahead.weight) : c.Onward (c'.spawn text) := by
  rw [h.spawn_eq]
  exact .spawned (h.weight_lt hc hused htext)

end Cursor

namespace Eval

variable {α β : Type} {s : State} {x x' : Eval α} {f f' : α → Eval β} {R : Text → α → Prop}

theorem bind_congr_of_ok (hx : x' s = x s) (hf : ∀ a s', x s = .ok a s' → f' a s' = f a s') :
    (x' >>= f') s = (x >>= f) s := by
  cases hok : x s with
  | ok a s' =>
    rw [bind_of_ok hok, bind_of_ok (hx.trans hok)]
    exact hf a s' hok
  | error e s' => rw [bind_of_error hok, bind_of_error (hx.trans hok)]

theorem bind_congr_left (hx : x' s = x s) : (x' >>= f) s = (x >>= f) s :=
  bind_congr_of_ok hx fun _ _ _ => rfl

theorem Takes.bind_congr (h : Takes x s R) (hs : s.cursor.InText) (hx : x' s = x s)
    (hf : ∀ used a s', s.cursor.Took used s'.cursor → s'.cursor.InText → R used a →
      f' a s' = f a s') : (x' >>= f') s = (x >>= f) s := by
  apply bind_congr_of_ok hx
  intro a s' hok
  obtain ⟨used, htook, hused⟩ := h.of_ok hok
  exact hf used a s' htook (htook.inText hs) hused

theorem within_congr {c : Cursor} (h : x' { s with cursor := c } = x { s with cursor := c }) :
    within c x' s = within c x s := by
  unfold within
  rw [h]

end Eval

namespace Read

variable {σ : Type} {s : State} {reader reader' : Eval Value} {evaluator other : Evaluator}
  {V : Text → Value → Prop} {light : Prop}

/--
The readers do the same from the cursor on.
-/
def SameUnits (reader reader' : Eval Value) (c : Cursor) : Prop :=
  ∀ (used : Text) (s : State), c.Took used s.cursor → reader' s = reader s

theorem SameUnits.took {c c' : Cursor} {used : Text} (h : SameUnits reader reader' c)
    (htook : c.Took used c') (hc : c.InText) : SameUnits reader reader' c' :=
  fun used' s hs => h (used ++ used') s (htook.trans hs hc)

theorem scan.go_congr {judge : σ → Text → Verdict σ} (hreader : UnitsTake reader V s.cursor.scope)
    (hsame : SameUnits reader reader' s.cursor) (hs : s.cursor.InText) (budget : Nat) (d : σ)
    {used : Text} {s' : State} (htook : s.cursor.Took used s'.cursor) :
    go reader' judge budget d s' = go reader judge budget d s' := by
  induction budget generalizing used s' d with
  | zero => rfl
  | succ budget ih =>
    unfold go
    rw [index_bind, index_bind]
    apply bind_congr_of_ok (hsame used s' htook)
    intro v s₁ hunit
    obtain ⟨rfl, -⟩ | ⟨unit, -, htook₁, -⟩ :=
      (hreader s' (htook.inText hs) htook.scope_eq).of_ok hunit
    . rfl
    . cases v
      case null => rfl
      all_goals
        apply bind_congr_of_ok rfl
        intro t s₂ htext
        obtain rfl := state_eq_of_orFail htext
        cases judge d t with
        | next d => exact ih d (htook.trans htook₁ hs)
        | keep d => rfl
        | giveBack d => rfl
        | refuse failure => rfl

theorem scan_congr {judge : σ → Text → Verdict σ} (start : σ)
    (hreader : UnitsTake reader V s.cursor.scope) (hsame : SameUnits reader reader' s.cursor)
    (hs : s.cursor.InText) : scan reader' judge start s = scan reader judge start s := by
  unfold scan
  rw [cursor_bind, cursor_bind]
  exact scan.go_congr hreader hsame hs _ start (Took.refl _)

theorem string_congr (options : StringOptions)
    (hreader : UnitsTake reader (WeighsUsed light) s.cursor.scope)
    (hsame : SameUnits reader reader' s.cursor) (hs : s.cursor.InText) :
    string reader' options s = string reader options s := by
  unfold string
  apply (takes_options_spaces _ hs).bind_congr hs rfl
  intro _ _ s₁ h₁ hs₁ _
  apply (takes_matcher options hs₁).bind_congr hs₁ rfl
  intro _ stop s₂ h₂ hs₂ _
  have h₁₂ := h₁.trans h₂ hs
  have hreader₂ : UnitsTake reader (WeighsUsed light) s₂.cursor.scope := h₁₂.scope_eq ▸ hreader
  apply (takes_draft _ _ stop hs₂ hreader₂).bind_congr hs₂
  . exact scan_congr _ hreader₂ (hsame.took h₁₂ hs) hs₂
  . intro _ _ _ _ _ _
    rfl

theorem int_congr (options : Options) (hreader : UnitsTake reader V s.cursor.scope)
    (hsame : SameUnits reader reader' s.cursor) (hs : s.cursor.InText) :
    int reader' options s = int reader options s := by
  unfold int
  apply (takes_options_spaces _ hs).bind_congr hs rfl
  intro _ _ s₁ h₁ hs₁ _
  rw [index_bind, index_bind]
  apply (takes_token _ hs₁).bind_congr hs₁ rfl
  intro _ negative s₂ h₂ hs₂ _
  have h₁₂ := h₁.trans h₂ hs
  have hreader₂ : UnitsTake reader V s₂.cursor.scope := h₁₂.scope_eq ▸ hreader
  apply (takes_digits options hs₂ hreader₂).bind_congr hs₂
  . exact scan_congr _ hreader₂ (hsame.took h₁₂ hs) hs₂
  . intro _ _ _ _ _ _
    rfl

theorem substitution_congr (h : evaluator.Sound) (hs : s.cursor.InText) (hlight : s.cursor.Light)
    (hunits : SameUnits evaluator.unit other.unit s.cursor)
    (hcommand : ∀ (text : Text) (s' : State), text.weight ≤ s.cursor.ahead.weight →
      s'.cursor = s.cursor.spawn text → other.command s' = evaluator.command s') :
    substitution other s = substitution evaluator s := by
  unfold substitution
  apply (takes_string substitutionOptions hs h.reader).bind_congr hs
  . exact string_congr _ h.reader hunits hs
  . intro used text s₁ h₁ hs₁ htext
    apply takes_trace.bind_congr hs₁ rfl
    intro _ _ s₂ h₂ hs₂ _
    rw [cursor_bind, cursor_bind]
    apply bind_congr_left
    apply within_congr
    exact hcommand text _ (htext.weight_le hlight h₁ hs) ((h₁.trans h₂ hs).spawn_eq text)

end Read

namespace Evaluator

variable {s : State} {evaluator other : Evaluator}

/--
The evaluators do the same in the state.
-/
structure SameAt (evaluator other : Evaluator) (s : State) : Prop where
  unit : other.unit s = evaluator.unit s
  command : other.command s = evaluator.command s
  commands : other.commands s = evaluator.commands s

/--
The evaluators do the same on every cursor with which a run goes on from `c`.
-/
def SameOnward (evaluator other : Evaluator) (c : Cursor) : Prop :=
  ∀ s : State, c.Onward s.cursor → SameAt evaluator other s

theorem SameOnward.took {c c' : Cursor} {used : Text} (h : SameOnward evaluator other c)
    (htook : c.Took used c') (hc : c.InText) : SameOnward evaluator other c' :=
  fun s hs => h s (htook.onward hc hs)

theorem SameOnward.unit_congr (hsame : SameOnward evaluator other s.cursor) (h : evaluator.Sound)
    (hs : s.cursor.InText) (hlight : s.cursor.Light) : Read.unit other s = Read.unit evaluator s := by
  cases hahead : s.cursor.ahead with
  | nil => rw [(verbatim_unit other).nil s hs hahead, (verbatim_unit evaluator).nil s hs hahead]
  | cons c rest =>
    -- only a dollar sign runs anything
    by_cases hc : c = '$'
    . subst hc
      obtain ⟨hs₁, hrest⟩ := ahead_of_cons hs hahead
      have hopen : s.cursor.Took ['$'] (s.advance 1).cursor := Took.of_eq_append hahead
      unfold Read.unit
      rw [bind_of_ok (char_eq hs), bind_of_ok (char_eq hs), hahead]
      apply bind_congr_of_ok rfl
      intro next s₂ hpeek
      rw [peek_eq hs₁, hrest] at hpeek
      cases hpeek
      cases rest with
      | nil => rfl
      | cons d rest =>
        by_cases hd : d = '{'
        . subst hd
          obtain ⟨hs₂, -⟩ := ahead_of_cons hs₁ hrest
          have htook : s.cursor.Took ['$', '{'] ((s.advance 1).advance 1).cursor :=
            hopen.trans (Took.of_eq_append hrest) hs
          apply substitution_congr h hs₂ (htook.light_eq ▸ hlight)
          . intro used s' hs'
            exact (hsame s' (.further (htook.trans hs' hs) (List.cons_ne_nil _ _))).unit
          . intro text s' htext hs'
            exact (hsame s' (hs' ▸ htook.onward_spawn hs (by decide) htext)).command
        . simp only [List.head?_cons, hd, ↓reduceIte]
    . have hplain : (c != '$') = true := by simpa using hc
      rw [(verbatim_unit other).cons s c rest hs hahead hplain,
        (verbatim_unit evaluator).cons s c rest hs hahead hplain]

end Evaluator

section Loop

variable {s : State} {commands commands' : Eval Unit} {name : Text}

theorem runElement_congr {element : Value}
    (h : ∀ s' : State, s'.cursor = s.cursor.assign name element → commands' s' = commands s') :
    runElement commands' name element s = runElement commands name element s := by
  unfold runElement
  rw [cursor_bind, cursor_bind]
  apply bind_congr_left
  apply within_congr
  exact bind_congr_left (h _ rfl)

theorem iterate.go_congr {elements : Elements}
    (hcommands : ∀ s' : State, s'.cursor.InText → Takes commands s' fun _ _ => True)
    (hs : s.cursor.InText)
    (h : ∀ (k : Nat) (s' : State), s'.cursor = s.cursor.assign name (elements.get k) →
      commands' s' = commands s')
    (left : Nat) (first : Option Int) (done : List Int) :
    go commands' name elements left first done s = go commands name elements left first done s := by
  induction left generalizing first done s with
  | zero => rfl
  | succ left ih =>
    unfold go
    apply bind_congr_of_ok (runElement_congr (h _))
    intro offset s₁ hrun
    have hcursor := ((yields_runElement hcommands hs).of_ok hrun).1
    dsimp only
    split
    . apply bind_congr_of_ok rfl
      intro _ s₂ hfail
      exact (Yields.of_ok (yields_failUneven (Q := fun _ _ => False) (E := fun _ _ => True) _ _ _
        trivial trivial) hfail).elim
    . apply ih (hcursor ▸ hs)
      rw [hcursor]
      exact h

theorem iterate_congr {elements : Elements}
    (hcommands : ∀ s' : State, s'.cursor.InText → Takes commands s' fun _ _ => True)
    (hs : s.cursor.InText)
    (h : ∀ (k : Nat) (s' : State), s'.cursor = s.cursor.assign name (elements.get k) →
      commands' s' = commands s') :
    iterate commands' name elements s = iterate commands name elements s := by
  unfold iterate
  exact bind_congr_left (iterate.go_congr hcommands hs h _ none [])

end Loop

namespace Standard

variable {s : State} {evaluator other : Evaluator}

/--
From the cursor on, the evaluators take the same units and run the same command.
-/
structure SameFrom (evaluator other : Evaluator) (c : Cursor) : Prop where
  units : SameUnits evaluator.unit other.unit c
  command : ∀ (used : Text) (s : State), c.Took used s.cursor → other.command s = evaluator.command s
  element : ∀ (used name : Text) (v : Value) (c' : Cursor) (s : State), c.Took used c' →
    v.IsElement → s.cursor = c'.assign name v → other.commands s = evaluator.commands s

theorem range_congr (h : evaluator.Sound) (hs : s.cursor.InText)
    (hsame : SameUnits evaluator.unit other.unit s.cursor) : range other s = range evaluator s := by
  unfold range
  rw [index_bind, index_bind]
  apply (takes_int {} hs h.reader).bind_congr hs (int_congr _ h.reader hsame hs)
  intro _ start s₁ h₁ hs₁ _
  have hsame₁ := hsame.took h₁ hs
  cases start with
  | none => rfl
  | some start =>
    apply (takes_int {} hs₁ h.reader).bind_congr hs₁ (int_congr _ h.reader hsame₁ hs₁)
    intro _ stop s₂ h₂ hs₂ _
    rw [index_bind, index_bind]
    exact bind_congr_left (int_congr _ h.reader (hsame₁.took h₂ hs₁) hs₂)

theorem say_congr (h : evaluator.Sound) (hs : s.cursor.InText)
    (hsame : SameUnits evaluator.unit other.unit s.cursor) : say other s = say evaluator s := by
  unfold say
  exact bind_congr_left (string_congr _ h.reader hsame hs)

theorem sleep_congr (h : evaluator.Sound) (hs : s.cursor.InText)
    (hsame : SameUnits evaluator.unit other.unit s.cursor) : sleep other s = sleep evaluator s := by
  unfold sleep
  rw [index_bind, index_bind]
  exact bind_congr_left (int_congr _ h.reader hsame hs)

theorem giveBack_congr (h : evaluator.Sound) (hs : s.cursor.InText)
    (hsame : SameUnits evaluator.unit other.unit s.cursor) :
    giveBack other s = giveBack evaluator s := by
  unfold giveBack
  exact bind_congr_left (string_congr _ h.reader hsame hs)

theorem block_congr (h : evaluator.Sound) (hs : s.cursor.InText) (hlight : s.cursor.Light)
    (hsame : SameUnits evaluator.unit other.unit s.cursor)
    (hcommands : ∀ (text : Text) (s' : State), text.weight ≤ s.cursor.ahead.weight →
      s'.cursor = s.cursor.spawn text → other.commands s' = evaluator.commands s') :
    block other s = block evaluator s := by
  unfold block
  apply (takes_string blockOptions hs h.reader).bind_congr hs (string_congr _ h.reader hsame hs)
  intro used text s₁ h₁ hs₁ htext
  rw [cursor_bind, cursor_bind]
  apply bind_congr_left
  apply within_congr
  exact hcommands text _ (htext.weight_le hlight h₁ hs) (h₁.spawn_eq text)

theorem forEach_congr (h : evaluator.Sound) (hs : s.cursor.InText)
    (hsame : SameFrom evaluator other s.cursor) : forEach other s = forEach evaluator s := by
  have hname : Takes (name false) s fun _ _ => True :=
    takes_of_eq (name_eq hs) (List.takeWhile_prefix _) trivial
  unfold forEach
  rw [index_bind, index_bind]
  apply hname.bind_congr hs rfl
  intro _ loopName s₁ h₁ hs₁ _
  dsimp only
  split
  . rfl
  . apply (takes_spaces hs₁).bind_congr hs₁ rfl
    intro _ _ s₂ h₂ hs₂ _
    have htook₂ := h₁.trans h₂ hs
    rw [index_bind, index_bind]
    apply (takes_string {} hs₂ h.reader).bind_congr hs₂
    . exact string_congr _ h.reader (hsame.units.took htook₂ hs) hs₂
    . intro _ specifier s₃ h₃ hs₃ _
      have htook₃ := htook₂.trans h₃ hs
      split
      . rw [index_bind, index_bind]
        apply (h.command s₃ hs₃).bind_congr hs₃ (hsame.command _ s₃ htook₃)
        intro _ v s₄ h₄ hs₄ hv
        have htook₄ := htook₃.trans h₄ hs
        cases helements : v.elements? with
        | none => rfl
        | some elements =>
          dsimp only
          rw [index_bind, index_bind]
          apply (takes_string {} hs₄ h.reader).bind_congr hs₄
          . exact string_congr _ h.reader (hsame.units.took htook₄ hs) hs₄
          . intro _ action s₅ h₅ hs₅ _
            have htook₅ := htook₄.trans h₅ hs
            split
            . apply bind_congr_left
              apply iterate_congr h.commands hs₅
              intro k s' hs'
              exact hsame.element _ _ _ _ s' htook₅ (hv.2.1.isElement_get helements k) hs'
            . rfl
      . rfl

end Standard

theorem findCommand_congr (registry : Registry Command) {s : State} {reader reader' : Eval Value}
    {light : Prop} (hreader : UnitsTake reader (WeighsUsed light) s.cursor.scope)
    (hsame : SameUnits reader reader' s.cursor) (hs : s.cursor.InText) :
    findCommand registry reader' s = findCommand registry reader s := by
  unfold findCommand
  apply (takes_spaces hs).bind_congr hs rfl
  intro _ _ s₁ h₁ hs₁ _
  rw [index_bind, index_bind]
  exact bind_congr_left (string_congr _ (h₁.scope_eq ▸ hreader) (hsame.took h₁ hs) hs₁)

namespace Evaluator

variable {s : State} {evaluator other : Evaluator}

theorem SameOnward.units (hsame : SameOnward evaluator other s.cursor) (h : evaluator.Sound)
    (hs : s.cursor.InText) (hlight : s.cursor.Light) :
    SameUnits (Read.unit evaluator) (Read.unit other) s.cursor := by
  intro used s' htook
  exact (hsame.took htook hs).unit_congr h (htook.inText hs) (htook.light_eq ▸ hlight)

theorem SameOnward.command_congr (hsame : SameOnward evaluator other s.cursor) (h : evaluator.Sound)
    (hs : s.cursor.InText) (hlight : s.cursor.Light) :
    (above Standard.registry other).command s = (above Standard.registry evaluator).command s := by
  have hunits := hsame.units h hs hlight
  unfold Evaluator.above
  apply (takes_findCommand Standard.registry h.unit_above hs).bind_congr hs
  . exact findCommand_congr Standard.registry h.unit_above.reader hunits hs
  . intro used found s₁ h₁ hs₁ hfound
    cases found with
    | none => rfl
    | some command =>
      obtain ⟨hne, name, hlookup, hname⟩ := hfound command rfl
      have hunits₁ := hunits.took h₁ hs
      obtain ⟨-, hbody⟩ | ⟨-, hbody⟩ | ⟨-, hbody⟩ | ⟨-, hbody⟩ | ⟨-, hbody⟩ | ⟨rfl, hbody⟩ :=
        Standard.lookup_cases hlookup
      all_goals simp only [hbody]
      . apply Standard.forEach_congr h.unit_above hs₁
        constructor
        . exact hunits₁
        . intro used' s' hs'
          exact (hsame s' (.further (h₁.trans hs' hs) (by simp [hne]))).command
        . intro used' loopName v c' s' hc' hv hs'
          exact (hsame s' (hs' ▸ .element (h₁.trans hc' hs) (by simp [hne]) loopName hv)).commands
      . exact Standard.range_congr h.unit_above hs₁ hunits₁
      . exact Standard.giveBack_congr h.unit_above hs₁ hunits₁
      . exact Standard.say_congr h.unit_above hs₁ hunits₁
      . exact Standard.sleep_congr h.unit_above hs₁ hunits₁
      . -- the name of the block has a weight, and the text of the block comes after it
        apply Standard.block_congr h.unit_above hs₁ (h₁.light_eq ▸ hlight) hunits₁
        intro text s' htext hs'
        have hbrace : 0 < used.weight := hname hlight
        exact (hsame s' (hs' ▸ h₁.onward_spawn hs hbrace htext)).commands

theorem SameOnward.above (hsame : SameOnward evaluator other s.cursor) (h : evaluator.Sound)
    (hs : s.cursor.InText) (hlight : s.cursor.Light) :
    SameAt (above Standard.registry evaluator) (above Standard.registry other) s where
  unit := hsame.unit_congr h hs hlight
  command := hsame.command_congr h hs hlight
  commands := by
    apply (h.takes_command Standard.sound_registry hs).bind_congr hs
    . exact hsame.command_congr h hs hlight
    . intro used v s₁ h₁ hs₁ hpost
      cases hfinish : v.isFinish with
      | true => rfl
      | false => exact (hsame s₁ (.further h₁ (hpost.1 hfinish))).commands

open Classical in
/--
The evaluator on the cursors in `allowed`, and on all others `astray`.
-/
noncomputable def orElse (evaluator : Evaluator) (allowed : Cursor → Prop) (astray : Evaluator) :
    Evaluator where
  unit s := if allowed s.cursor then evaluator.unit s else astray.unit s
  command s := if allowed s.cursor then evaluator.command s else astray.command s
  commands s := if allowed s.cursor then evaluator.commands s else astray.commands s

theorem orElse_sameAt {allowed : Cursor → Prop} (astray : Evaluator) (h : allowed s.cursor) :
    SameAt evaluator (evaluator.orElse allowed astray) s :=
  ⟨if_pos h, if_pos h, if_pos h⟩

/--
The evaluators of the levels, where only what goes onward is left to the level below. Whatever else
is started is left to `astray`.
-/
noncomputable def guarded (registry : Registry Command) (astray : Evaluator) : (level : Nat) → Evaluator
  | 0 => exhausted
  | level + 1 =>
    let inner (s : State) := (guarded registry astray level).orElse s.cursor.Onward astray
    { unit := fun s => (above registry (inner s)).unit s
      command := fun s => (above registry (inner s)).command s
      commands := fun s => (above registry (inner s)).commands s }

theorem SameAt.trans {third : Evaluator} (h : SameAt evaluator other s) (h' : SameAt other third s) :
    SameAt evaluator third s :=
  ⟨h'.unit.trans h.unit, h'.command.trans h.command, h'.commands.trans h.commands⟩

theorem sameAt_guarded (astray : Evaluator) (level : Nat) (hs : s.cursor.InText)
    (hlight : s.cursor.Light) :
    SameAt (ofLevel Standard.registry level) (guarded Standard.registry astray level) s := by
  induction level generalizing s with
  | zero => exact ⟨rfl, rfl, rfl⟩
  | succ level ih =>
    have hsame : SameOnward (ofLevel Standard.registry level)
        ((guarded Standard.registry astray level).orElse s.cursor.Onward astray) s.cursor := by
      intro s' honward
      exact (ih (honward.inText hs) (honward.light hlight)).trans (orElse_sameAt astray honward)
    have habove := hsame.above (Standard.sound_ofLevel level) hs hlight
    exact ⟨habove.unit, habove.command, habove.commands⟩

end Evaluator

theorem Eval.Takes.weight_le {s s' : State} {x : Eval Text} {light : Prop} {t : Text}
    (h : Takes x s (StringPost light)) (hlight : light) (hs : s.cursor.InText)
    (hx : x s = .ok t s') :
    t.weight ≤ (s.cursor.buffer.slice s.cursor.index s'.cursor.index).weight := by
  obtain ⟨used, htook, hpost⟩ := h.of_ok hx
  rw [htook.slice_eq hs]
  exact hpost.2 hlight

theorem Eval.Takes.weight_lt {s s₁ s₂ : State} {x : Eval Text} {used text : Text}
    (h : Takes x s₁ (StringPost s₁.cursor.Light)) (hlight : s.cursor.Light) (hs : s.cursor.InText)
    (htook : s.cursor.Took used s₁.cursor) (hused : 0 < used.weight) (hx : x s₁ = .ok text s₂) :
    text.weight < s.cursor.buffer.weight := by
  obtain ⟨_, htook₁, hpost⟩ := h.of_ok hx
  apply htook.weight_lt hs hused
  exact hpost.weight_le (htook.light_eq ▸ hlight) htook₁ (htook.inText hs)

/--
With light variables, what is read weighs no more than the characters it was read from, whether it is a
string or a unit. What a loop can run over gives elements that are light, and the text of a
substitution or a block is lighter than the text around it. So a run only goes on further in its text,
maybe with such an element in a variable, and in lighter texts: what would happen anywhere else makes
no difference.
-/
theorem reading_adds_no_weight (level : Nat) (s : State) (hs : s.cursor.InText)
    (hlight : s.cursor.Light) :
    let evaluator := Evaluator.ofLevel Standard.registry level
    (∀ reader ∈ [evaluator.unit, rawUnit], ∀ options t s', Read.string reader options s = .ok t s' →
        t.weight ≤ (s.cursor.buffer.slice s.cursor.index s'.cursor.index).weight) ∧
      (∀ v s', evaluator.unit s = .ok v s' →
        v.Weighs (s.cursor.buffer.slice s.cursor.index s'.cursor.index).weight) ∧
      (∀ v s' elements, evaluator.command s = .ok v s' → v.elements? = some elements →
        ∀ k, (elements.get k).IsElement) ∧
      (∀ text s', ['$', '{'] <+: s.cursor.ahead →
        Read.string evaluator.unit substitutionOptions (s.advance 2) = .ok text s' →
        text.weight < s.cursor.buffer.weight) ∧
      (∀ command s₁ text s₂, findCommand Standard.registry evaluator.unit s = .ok (some command) s₁ →
        command.label = ['{'] → Read.string evaluator.unit Standard.blockOptions s₁ = .ok text s₂ →
        text.weight < s.cursor.buffer.weight) ∧
      ∀ astray, evaluator.SameAt (.guarded Standard.registry astray level) s := by
  intro evaluator
  have hsound : evaluator.Sound := Standard.sound_ofLevel level
  refine ⟨fun reader hreader options t s' hstring => ?_, fun v s' hunit => ?_,
    fun v s' elements hcommand helements => ?_, fun text s' hopening hstring => ?_,
    fun command s₁ text s₂ hfind hlabel hstring => ?_, fun astray => ?_⟩
  . simp only [List.mem_cons, List.not_mem_nil, or_false] at hreader
    obtain rfl | rfl := hreader
    . exact (takes_string options hs hsound.reader).weight_le hlight hs hstring
    . exact (takes_string options hs (unitsTake_rawUnit _)).weight_le trivial hs hstring
  . obtain ⟨rfl, -⟩ | ⟨used, -, htook, hweighs⟩ := (hsound.unit s hs).of_ok hunit
    . exact Value.weighs_null _
    . rw [htook.slice_eq hs]
      exact hweighs hlight
  . obtain ⟨_, -, -, hplain, -⟩ := (hsound.command s hs).of_ok hcommand
    exact hplain.isElement_get helements
  . have htook : s.cursor.Took ['$', '{'] (s.advance 2).cursor := ⟨hopening, rfl⟩
    exact (takes_string _ (htook.inText hs) hsound.reader).weight_lt hlight hs htook (by decide) hstring
  . obtain ⟨used, htook, hfound⟩ := (takes_findCommand _ hsound hs).of_ok hfind
    obtain ⟨-, name, hlookup, hname⟩ := hfound command rfl
    have hused : 0 < used.weight := by
      rw [← Standard.label_of_lookup hlookup, hlabel] at hname
      exact hname hlight
    exact (takes_string _ (htook.inText hs) hsound.reader).weight_lt hlight hs htook hused hstring
  . exact Evaluator.sameAt_guarded astray level hs hlight

/--
Before a string with a substitution, in which the value of a variable is an opening brace.
-/
def beforeBraces : State :=
  { cursor := { buffer := ";a$\x7breturn $x$x\x7d\x7b b".toList, index := 1,
                scope := .ofList [(['x'], .text ['{'])] } }

theorem reading_adds_no_weight_braces :
    beforeBraces.cursor.InText ∧ beforeBraces.cursor.Light ∧
      (∃ s', Read.string (Evaluator.ofLevel Standard.registry 3).unit {} beforeBraces =
          .ok ['a', '{', '{', '{'] s' ∧
        Text.weight ['a', '{', '{', '{'] ≤
          (beforeBraces.cursor.buffer.slice 1 s'.cursor.index).weight) ∧
      (Evaluator.ofLevel Standard.registry 3).SameAt
        (.guarded Standard.registry .exhausted 3) beforeBraces := by
  have hin : beforeBraces.cursor.InText := ⟨by decide, by decide⟩
  have hlight : beforeBraces.cursor.Light := by
    have hempty : Cursor.Light { buffer := ";a$\x7breturn $x$x\x7d\x7b b".toList, index := 1 } := nofun
    exact hempty.assign ((Value.weighs_text _ _).mpr (by decide))
  have hok : (match Read.string (Evaluator.ofLevel Standard.registry 3).unit {} beforeBraces with
      | .ok t _ => t == ['a', '{', '{', '{']
      | .error .. => false) = true := by
    decide +kernel
  obtain ⟨hstring, -, -, -, -, hguarded⟩ := reading_adds_no_weight 3 beforeBraces hin hlight
  refine ⟨hin, hlight, ?_, hguarded .exhausted⟩
  split at hok
  . next t s' hread =>
    rw [beq_iff_eq] at hok
    rw [hok] at hread
    exact ⟨s', hread, hstring _ List.mem_cons_self {} _ s' hread⟩
  . cases hok

/--
Before a loop over a range with one element, which has two digits more than a number that can be
printed.
-/
def beforeHuge : State :=
  { cursor := { buffer := "for x in range $n$n 0 -$n$n do say $x".toList,
                scope := .ofList [(['n'], .text (List.replicate Numeral.digitLimit '9'))] } }

/--
The element of a loop need not have a text, although all variables around the loop have one. The loop
stops where the text of its variable is asked for.
-/
theorem loop_variable_without_text :
    beforeHuge.cursor.InText ∧
      (∀ name v, beforeHuge.cursor.scope.find? name = some v → ∃ t, v.text? = some t ∧ t.weight ≤ 1) ∧
      (∃ v s₁ elements,
        (Evaluator.ofLevel Standard.registry 2).command (beforeHuge.advance 9) = .ok v s₁ ∧
          v.elements? = some elements ∧ elements.size = 1 ∧ (elements.get 0).text? = none) ∧
      ∃ s₂, (Evaluator.ofLevel Standard.registry 3).command beforeHuge =
        .error (.failure .unprintable) s₂ := by
  have hrange : (match (Evaluator.ofLevel Standard.registry 2).command (beforeHuge.advance 9) with
      | .error .. => false
      | .ok v _ => v.elements?.any fun elements =>
        elements.size == 1 && (elements.get 0).text?.isNone) = true := by
    decide +kernel
  have hloop : (match (Evaluator.ofLevel Standard.registry 3).command beforeHuge with
      | .error stop _ => stop == .failure .unprintable
      | .ok .. => false) = true := by
    decide +kernel
  refine ⟨⟨by decide, by decide⟩, ?_, ?_, ?_⟩
  . intro name v hfind
    have hv : v = .text (List.replicate Numeral.digitLimit '9') := by
      simpa using congrArg (·.2) (List.mem_singleton.mp (Table.mem_entries_of_find? hfind))
    have hweight : Text.weight (List.replicate Numeral.digitLimit '9') = 0 := by
      rw [Text.weight_eq_zero_iff]
      intro c hc
      rw [List.eq_of_mem_replicate hc]
      decide
    rw [hv]
    exact ⟨_, rfl, by omega⟩
  . split at hrange
    . cases hrange
    . next v s₁ hcommand =>
      cases helements : v.elements? with
      | none =>
        rw [helements] at hrange
        cases hrange
      | some elements =>
        rw [helements, Option.any_some, Bool.and_eq_true, beq_iff_eq,
          Option.isNone_iff_eq_none] at hrange
        exact ⟨v, s₁, elements, hcommand, helements, hrange⟩
  . split at hloop
    . next stop s₂ hcommand =>
      rw [beq_iff_eq] at hloop
      exact ⟨s₂, hloop ▸ hcommand⟩
    . cases hloop

end LineScript
