import LineScript.Proofs.Numerals
import LineScript.Proofs.Performs
import LineScript.Proofs.Runs

/-!
This module contains loops inside loops over ranges of integers. The innermost command is run once for
each tuple of the product of the ranges, in the order of the loops. The proof is by induction on the
loops that are still to come, with the values of the loops around them in scope.
-/

namespace LineScript

namespace Range

/--
Does the integer come before the end of a range with this step?
-/
def isBefore (stop step i : Int) : Bool := if 0 < step then i < stop else stop < i

/--
The integers from `start` on, `step` apart, that come before `stop`.
-/
def values (start stop step : Int) : List Int :=
  ((List.range (stop - start).natAbs).map fun k : Nat => start + k * step).filter (isBefore stop step)

variable {start stop step : Int}

theorem lt_rangeSize_iff (hstep : step ≠ 0) (k : Nat) :
    k < Value.rangeSize start stop step ↔ isBefore stop step (start + k * step) = true := by
  unfold Value.rangeSize isBefore
  by_cases hpos : 0 < step
  . rw [if_pos hpos, if_pos hpos, Int.lt_toNat, Int.lt_iff_add_one_le, Int.le_ediv_iff_mul_le hpos,
      Int.add_mul, decide_eq_true_eq]
    omega
  . have hneg : step < 0 := by omega
    have hopposite : 0 < -step := by omega
    rw [if_neg hpos, if_neg hpos, if_pos hneg, Int.lt_toNat, Int.lt_iff_add_one_le,
      Int.le_ediv_iff_mul_le hopposite, Int.add_mul, Int.mul_neg, decide_eq_true_eq]
    omega

theorem rangeSize_le (hstep : step ≠ 0) :
    Value.rangeSize start stop step ≤ (stop - start).natAbs := by
  -- each step takes at least one off the distance, so that many steps are not before the stop
  apply Nat.le_of_not_lt
  rw [lt_rangeSize_iff hstep]
  have hcount := Int.natCast_nonneg (stop - start).natAbs
  unfold isBefore
  split
  . next hpos =>
    have hmul := Int.mul_le_mul_of_nonneg_left (show 1 ≤ step by omega) hcount
    rw [decide_eq_true_eq]
    omega
  . next hpos =>
    have hmul := Int.mul_le_mul_of_nonneg_left (show step ≤ -1 by omega) hcount
    rw [decide_eq_true_eq]
    omega

theorem values_eq (hstep : step ≠ 0) :
    values start stop step =
      (List.range (Value.rangeSize start stop step)).map fun k : Nat => start + k * step := by
  obtain ⟨more, hmore⟩ := Nat.exists_eq_add_of_le (@rangeSize_le start stop step hstep)
  unfold values
  rw [List.filter_map, hmore, List.range_add, List.filter_append, List.filter_eq_self.mpr,
    List.filter_eq_nil_iff.mpr, List.append_nil]
  . intro k hk
    obtain ⟨j, -, rfl⟩ := List.mem_map.mp hk
    rw [Function.comp_apply, ← lt_rangeSize_iff hstep]
    omega
  . intro k hk
    rw [Function.comp_apply, ← lt_rangeSize_iff hstep]
    exact List.mem_range.mp hk

end Range

/--
A loop over a range with at least one element. All its elements can be written.
-/
structure Loop where
  name : Text
  start : Int
  stop : Int
  step : Int
  hne : name ≠ []
  hname : ∀ c ∈ name, Text.isNameChar c = true
  hstep : step ≠ 0
  hvalues : Range.values start stop step ≠ []
  hdigits : ∀ i ∈ Range.values start stop step,
    (Numeral.ofNat i.natAbs).length ≤ Numeral.digitLimit

namespace Loop

def values (loop : Loop) : List Int := Range.values loop.start loop.stop loop.step

def header (loop : Loop) : Text :=
  "for ".toList ++ loop.name ++ " in range ".toList ++ Numeral.ofInt loop.start ++ " ".toList ++
    Numeral.ofInt loop.stop ++ " ".toList ++ Numeral.ofInt loop.step ++ " do ".toList

/--
The text that names the variables, with commas between them.
-/
def references (names : List Text) : Text := Text.join [','] (names.map ('$' :: ·))

/--
The loops one inside the other around a command that tells the values of the variables. The variables
in `outer` belong to loops around them.
-/
def program (outer : List Text) (loops : List Loop) : Text :=
  loops.flatMap header ++ "say ".toList ++ references (outer ++ loops.map name)

/--
The tuples of the product of the ranges. The first component changes last.
-/
def tuples : List Loop → List (List Int)
  | [] => [[]]
  | loop :: loops => loop.values.flatMap fun i => (tuples loops).map (i :: ·)

def message (tuple : List Int) : Effect := ⟨.stdout, Text.join [','] (tuple.map Numeral.ofInt)⟩

open Eval Read

variable {scope : Table Value}

/--
The variable has the integer as its value, and it can be referred to.
-/
structure Binds (scope : Table Value) (binding : Text × Int) : Prop where
  ne_nil : binding.1 ≠ []
  isNameChar : ∀ c ∈ binding.1, Text.isNameChar c = true
  find? : scope.find? binding.1 = some (.int binding.2)
  length_le : (Numeral.ofNat binding.2.natAbs).length ≤ Numeral.digitLimit

theorem judgeString_ofInt {d : Draft} (hd : d.escaping = false) (i : Int) :
    judgeString true true .never d (Numeral.ofInt i) = .next (d.append (Numeral.ofInt i)) := by
  have hsemicolon : Numeral.ofInt i ≠ [';'] := Numeral.ofInt_ne_singleton i (by decide) rfl
  have hbackslash : Numeral.ofInt i ≠ ['\\'] := Numeral.ofInt_ne_singleton i (by decide) rfl
  simp [judgeString, hd, hsemicolon, hbackslash, Matcher.never, Matcher.accepts]

theorem scans_references (evaluator : Evaluator) (bindings : List (Text × Int))
    (h : ∀ binding ∈ bindings, Binds scope binding) (d : Draft) (hd : d.escaping = false) :
    Scans (unit evaluator) (judgeString true true .never) scope d (references (bindings.map (·.1)))
      (d.append (message (bindings.map (·.2))).message) [] := by
  induction bindings generalizing d with
  | nil =>
    show Scans _ _ scope d [] (d.append []) []
    rw [append_nil_of_escaping_eq hd]
    exact scans_nil (verbatim_unit evaluator)
  | cons binding bindings ih =>
    have hbinding := h binding List.mem_cons_self
    have hunit : ∀ rest : Text, (∀ c, rest.head? = some c → Text.isNameChar c = false) →
        TakesUnit (unit evaluator) scope ('$' :: binding.1 ++ rest) (Numeral.ofInt binding.2) rest := by
      intro rest hrest
      exact takesUnit_variable evaluator hbinding.ne_nil hbinding.isNameChar hrest hbinding.find?
        (by simp) (Numeral.literal?_int hbinding.length_le)
    cases bindings with
    | nil =>
      have hmessage : (message [binding.2]).message = Numeral.ofInt binding.2 := by
        simp [message, Text.join]
      have hreferences : references [binding.1] = '$' :: binding.1 ++ [] := by
        simp [references, Text.join]
      simp only [List.map_cons, List.map_nil, hmessage, hreferences]
      apply (hunit [] (by simp)).scans_next (judgeString_ofInt hd binding.2)
      exact scans_nil (verbatim_unit evaluator)
    | cons next bindings =>
      have hmessage : (message ((binding :: next :: bindings).map (·.2))).message =
          Numeral.ofInt binding.2 ++ ',' :: (message ((next :: bindings).map (·.2))).message := by
        simp [message, Text.join, List.intercalate_cons_cons]
      have hreferences : references ((binding :: next :: bindings).map (·.1)) =
          '$' :: binding.1 ++ ',' :: references ((next :: bindings).map (·.1)) := by
        simp [references, Text.join, List.intercalate_cons_cons]
      have happend : ∀ t, ((d.append (Numeral.ofInt binding.2)).append [',']).append t =
          d.append (Numeral.ofInt binding.2 ++ ',' :: t) := by
        intro t
        rw [append_append, append_append]
        rfl
      have hcomma : TakesUnit (unit evaluator) scope
          (',' :: references ((next :: bindings).map (·.1))) [',']
          (references ((next :: bindings).map (·.1))) :=
        takesUnit_of_verbatim (verbatim_unit evaluator) (by decide) scope _
      have hboundary : ∀ c, (',' :: references ((next :: bindings).map (·.1))).head? = some c →
          Text.isNameChar c = false := by
        intro c hc
        cases hc
        rfl
      rw [hmessage, hreferences, ← happend]
      apply (hunit _ hboundary).scans_next (judgeString_ofInt hd binding.2)
      apply hcomma.scans_next rfl
      exact ih (fun b hb => h b (List.mem_cons_of_mem binding hb)) _ rfl

theorem dropSpaces_references (names : List Text) : (references names).dropSpaces = references names := by
  apply Text.dropSpaces_of_head?
  intro h
  cases names with
  | nil => cases h
  | cons name names =>
    cases names with
    | nil => simp [references, Text.join] at h
    | cons next names => simp [references, Text.join, List.intercalate_cons_cons] at h

theorem header_append (loop : Loop) (t : Text) :
    loop.header ++ t = "for".toList ++ ' ' :: (loop.name ++ " in ".toList ++ ("range".toList ++ ' ' ::
      (Numeral.ofInt loop.start ++ ' ' :: (Numeral.ofInt loop.stop ++ ' ' ::
        (Numeral.ofInt loop.step ++ ' ' :: ("do ".toList ++ t)))))) := by
  have hfor : "for ".toList = "for".toList ++ [' '] := rfl
  have hin : " in range ".toList = " in ".toList ++ ("range".toList ++ [' ']) := rfl
  have hspace : " ".toList = [' '] := rfl
  have hdo : " do ".toList = ' ' :: "do ".toList := rfl
  unfold header
  rw [hfor, hin, hspace, hdo]
  simp only [List.append_assoc, List.cons_append, List.nil_append]

theorem program_cons (outer : List Text) (loop : Loop) (loops : List Loop) :
    program outer (loop :: loops) = loop.header ++ program (outer ++ [loop.name]) loops := by
  simp [program]

theorem dropSpaces_program (outer : List Text) (loops : List Loop) :
    (program outer loops).dropSpaces = program outer loops := by
  cases loops with
  | nil => rfl
  | cons loop loops =>
    rw [program_cons, header_append]
    rfl

theorem performs_range (loop : Loop) (level : Nat) (t : Text) :
    Performs scope (Evaluator.ofLevel Standard.registry (level + 1)).command
      ("range".toList ++ ' ' :: (Numeral.ofInt loop.start ++ ' ' :: (Numeral.ofInt loop.stop ++ ' ' ::
        (Numeral.ofInt loop.step ++ ' ' :: t))))
      (.range loop.start loop.stop loop.step) t.dropSpaces [] := by
  have hlookup : Standard.registry.lookup "range".toList =
      some ⟨"range".toList, Standard.range⟩ := by
    rw [Standard.registry_eq]
    rfl
  have hreader := Evaluator.verbatim_bodies Standard.registry level
  have hread : ∀ (i j : Int) (t : Text),
      Reads (Read.int (Evaluator.bodies Standard.registry level).unit {})
        (Numeral.ofInt i ++ ' ' :: (Numeral.ofInt j ++ ' ' :: t)) (some i)
        (Numeral.ofInt j ++ ' ' :: t) := by
    intro i j t
    have hint := reads_ofInt hreader i (Numeral.ofInt j ++ ' ' :: t)
    rw [Numeral.dropSpaces_ofInt_append] at hint
    exact hint
  apply Evaluator.performs_command (by decide) hlookup (Numeral.dropSpaces_ofInt_append _ _)
  apply Standard.performs_range loop.hstep (hread _ _ _) (hread _ _ _)
  exact reads_ofInt hreader loop.step t

theorem mem_values {loop : Loop} {k : Nat} (hk : k < Value.rangeSize loop.start loop.stop loop.step) :
    loop.start + k * loop.step ∈ loop.values := by
  unfold values
  rw [Range.values_eq loop.hstep]
  exact List.mem_map.mpr ⟨k, List.mem_range.mpr hk, rfl⟩

/--
What one loop performs, from what its body performs for each value.
-/
theorem performs_forEach (loop : Loop) (level : Nat) {body : Text} {events : Int → List Event}
    (hbody : body.dropSpaces = body)
    (h : ∀ i ∈ loop.values, Performs (scope.insert loop.name (.int i))
      (Evaluator.ofLevel Standard.registry (level + 1)).commands body () [] (events i)) :
    Performs scope (Evaluator.ofLevel Standard.registry (level + 2)).command (loop.header ++ body)
      .null [] (loop.values.flatMap events) := by
  have hlookup : Standard.registry.lookup "for".toList = some ⟨"for".toList, Standard.forEach⟩ := by
    rw [Standard.registry_eq]
    rfl
  have hvalues : loop.values = (List.range (Value.rangeSize loop.start loop.stop loop.step)).map
      fun k : Nat => loop.start + k * loop.step :=
    Range.values_eq loop.hstep
  have hsize : Value.rangeSize loop.start loop.stop loop.step ≠ 0 := by
    intro hzero
    rw [hzero] at hvalues
    exact loop.hvalues hvalues
  have hstart : ∀ t, Text.dropSpaces (loop.name ++ t) = loop.name ++ t := by
    intro t
    obtain ⟨c, name, hcons⟩ := List.exists_cons_of_ne_nil loop.hne
    have hc : c ≠ ' ' := by
      rintro rfl
      cases loop.hname ' ' (hcons ▸ List.mem_cons_self)
    rw [hcons]
    exact Text.dropSpaces_cons hc _
  rw [header_append, hvalues, List.flatMap_map]
  apply Evaluator.performs_command (by decide) hlookup (by rw [List.append_assoc, hstart])
  apply Standard.performs_forEach (Evaluator.verbatim_bodies Standard.registry (level + 1)) loop.hne
    loop.hname rfl (performs_range loop level ("do ".toList ++ body)) rfl hsize
  . intro k hk
    exact ⟨_, Numeral.literal?_int (loop.hdigits _ (mem_values hk))⟩
  . exact hbody
  . exact List.nil_suffix
  . intro k hk
    exact h _ (mem_values hk)

theorem performs_say (bindings : List (Text × Int))
    (h : ∀ binding ∈ bindings, Binds scope binding) (level : Nat) :
    Performs scope (Evaluator.ofLevel Standard.registry (level + 1)).command
      ("say".toList ++ ' ' :: references (bindings.map (·.1))) .null []
      [.effect (message (bindings.map (·.2)))] := by
  have hlookup : Standard.registry.lookup "say".toList = some ⟨"say".toList, Standard.say⟩ := by
    rw [Standard.registry_eq]
    rfl
  have hspaces := dropSpaces_references (bindings.map (·.1))
  have hmatcher : Reads (StringOptions.matcher { stop := some .never })
      (references (bindings.map (·.1))).dropSpaces .never (references (bindings.map (·.1))) := by
    rw [hspaces]
    exact reads_pure _ _
  have hread := readsIn_string rfl hmatcher
    (scans_references (.ofLevel Standard.registry level) bindings h {} rfl)
  rw [text_append_empty] at hread
  apply Evaluator.performs_command (by decide) hlookup hspaces
  exact Standard.performs_say hread

theorem binds_append (loop : Loop) {i : Int} (hi : i ∈ loop.values) {bindings : List (Text × Int)}
    (hbindings : ∀ binding ∈ bindings, Binds scope binding)
    (hnew : loop.name ∉ bindings.map (·.1)) :
    ∀ binding ∈ bindings ++ [(loop.name, i)],
      Binds (scope.insert loop.name (.int i)) binding := by
  intro binding hbinding
  cases List.mem_append.mp hbinding with
  | inl hmem =>
    have h := hbindings binding hmem
    have hother : binding.1 ≠ loop.name := by
      intro heq
      exact hnew (heq ▸ List.mem_map_of_mem hmem)
    refine ⟨h.ne_nil, h.isNameChar, ?_, h.length_le⟩
    rw [Table.find?_insert, if_neg hother]
    exact h.find?
  | inr hmem =>
    rw [List.mem_singleton.mp hmem]
    refine ⟨loop.hne, loop.hname, ?_, loop.hdigits i hi⟩
    rw [Table.find?_insert, if_pos rfl]

theorem performs_program (loops : List Loop) (bindings : List (Text × Int))
    (hbindings : ∀ binding ∈ bindings, Binds scope binding)
    (hnames : (bindings.map (·.1) ++ loops.map name).Nodup) (level : Nat)
    (hlevel : loops.length + 1 < level) :
    Performs scope (Evaluator.ofLevel Standard.registry level).commands
      (program (bindings.map (·.1)) loops) () []
      ((tuples loops).map fun tuple => .effect (message (bindings.map (·.2) ++ tuple))) := by
  -- the loops around are known by their bindings, of which there is one more in the body of a loop
  induction loops generalizing scope bindings level with
  | nil =>
    obtain ⟨level, rfl⟩ : ∃ n, level = n + 2 := ⟨level - 2, by simp at hlevel; omega⟩
    have htext : program (bindings.map (·.1)) [] =
        "say".toList ++ ' ' :: references (bindings.map (·.1)) := by
      simp only [program, List.flatMap_nil, List.map_nil, List.append_nil]
      rfl
    simp only [htext, tuples, List.map_cons, List.map_nil, List.append_nil]
    apply Evaluator.performs_commands_of_last (v := .null) rfl
    exact performs_say bindings hbindings (level + 1)
  | cons loop loops ih =>
    obtain ⟨level, rfl⟩ : ∃ n, level = n + 2 := ⟨level - 2, by simp at hlevel; omega⟩
    apply Evaluator.performs_commands_of_last (v := .null) rfl
    rw [program_cons]
    have hevents : (tuples (loop :: loops)).map
        (fun tuple => Event.effect (message (bindings.map (·.2) ++ tuple))) =
          loop.values.flatMap fun i => (tuples loops).map fun tuple =>
            .effect (message ((bindings ++ [(loop.name, i)]).map (·.2) ++ tuple)) := by
      simp [tuples, List.map_flatMap, Function.comp_def]
    rw [hevents]
    apply performs_forEach loop level (dropSpaces_program _ _)
    intro i hi
    have hnew : loop.name ∉ bindings.map (·.1) := by
      intro hmem
      exact (List.nodup_append.mp hnames).2.2 _ hmem _ List.mem_cons_self rfl
    have hnames' : ((bindings ++ [(loop.name, i)]).map (·.1) ++ loops.map name).Nodup := by
      simpa using hnames
    have hinner := ih (bindings ++ [(loop.name, i)]) (loop.binds_append hi hbindings hnew) hnames'
      (level + 1) (by simp at hlevel; omega)
    rw [List.map_append] at hinner
    exact hinner

/--
The loops one inside the other, around a command that tells the values of their variables.
-/
def source (loops : List Loop) : Text := program [] loops

end Loop

namespace Session

theorem live_of_adds {session : Session} {events : List Event} {log : Log}
    (h : session.log.Adds events log) : (session.newEvents log).live = events := by
  obtain ⟨new, rfl, rfl⟩ := h
  rw [newEvents_append]
  rfl

/--
Loops inside loops are run without a problem, and the messages are the tuples of the product of their
ranges, in order. Nothing else happens.
-/
theorem run?_loops (session : Session) (loops : List Loop)
    (hnames : (loops.map Loop.name).Nodup) (level : Nat) (hlevel : loops.length + 1 < level) :
    ∃ next, (session.standard level).run? (Loop.source loops) =
        some (.success ((Loop.tuples loops).map Loop.message), next) ∧
      (session.newEvents next.log).live =
        (Loop.tuples loops).map fun tuple => .effect (Loop.message tuple) := by
  have hprogram := @Loop.performs_program .empty loops [] nofun hnames level hlevel
  obtain ⟨used, log, -, hcommands, hadds⟩ := hprogram
    ((session.standard level).start (Loop.source loops)) (Cursor.spawn_inText { buffer := [] } _) rfl rfl
  have hevents : session.log.Adds
      ((Loop.tuples loops).map fun tuple => .effect (Loop.message tuple)) log := hadds
  have heffects := (newEvents_of_adds hevents).1
  have hmessages : ((Loop.tuples loops).map fun tuple => Event.effect (Loop.message tuple)).filterMap
      Event.effect? = (Loop.tuples loops).map Loop.message := by
    simp [List.filterMap_map, Function.comp_def, Event.effect?]
  rw [hmessages] at heffects
  have hstart : (session.standard level).evaluator.commands
      ((session.standard level).start (Loop.source loops)) = .ok () _ := hcommands
  have hrun := run?_of_ok hstart
  refine ⟨{ session.standard level with log }, ?_, live_of_adds hevents⟩
  rw [← heffects]
  exact hrun

def descending : Loop where
  name := ['x']
  start := 10
  stop := -3
  step := -12
  hne := by decide
  hname := List.forall_mem_singleton.mpr rfl
  hstep := by decide
  hvalues := by decide
  hdigits := by decide

def ascending : Loop where
  name := ['y']
  start := 0
  stop := 2
  step := 1
  hne := by decide
  hname := List.forall_mem_singleton.mpr rfl
  hstep := by decide
  hvalues := by decide
  hdigits := by decide

theorem run?_loops_descending_ascending :
    Loop.source [descending, ascending] =
        "for x in range 10 -3 -12 do for y in range 0 2 1 do say $x,$y".toList ∧
      ([descending, ascending].map Loop.name).Nodup ∧
      ∃ next, (standard {} 4).run? (Loop.source [descending, ascending]) =
        some (.success [⟨.stdout, "10,0".toList⟩, ⟨.stdout, "10,1".toList⟩, ⟨.stdout, "-2,0".toList⟩,
          ⟨.stdout, "-2,1".toList⟩], next) := by
  obtain ⟨next, hrun, -⟩ := run?_loops {} [descending, ascending] (by decide) 4 (by decide)
  exact ⟨by decide, by decide, next, hrun⟩

end Session

end LineScript
