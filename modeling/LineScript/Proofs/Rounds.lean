import LineScript.Proofs.Orderly
import LineScript.Proofs.Performs

/-!
This module contains loops as rows of rounds. A round is the run of the rest of the text for one
element, on a cursor of its own and with nothing in the log. What a loop does is determined by its
rounds, none of which knows of another: it ends at the first round that stops or goes astray, and then
the cursor is where it was; otherwise it moves the cursor by what each round took.
-/

namespace LineScript

open Eval

/--
A round of a loop: the number of characters that it took, or why it stopped, and its events.
-/
structure Round where
  offset : Except Stop Int
  log : Log
  deriving DecidableEq

/--
The round for an element of a loop that is started in `s`.
-/
def State.round (s : State) (commands : Eval Unit) (name : Text) (element : Value) : Round :=
  match commands { s with cursor := s.cursor.assign name element, log := #[] } with
  | .ok _ s' => ⟨.ok (s'.cursor.index - s.cursor.index), s'.log⟩
  | .error stop s' => ⟨.error stop, s'.log⟩

/--
Why a loop ends at its round number `k` if that took `offset` characters and the first one `first`:
this is a fault at the cursor, unless one of the numbers that it names has too many digits.
-/
def State.uneven (s : State) (first offset : Int) (k : Nat) : Stop :=
  if [first, offset, offset - first].all fun i => (s.cursor.numeral? i).isSome then
    .fault ⟨.unevenIteration first offset k, some s.cursor.index, some s.cursor.buffer⟩
  else .failure .unprintable

/--
Why a loop ends at its round number `k`, if it does, where the first round took `first` characters:
the round stopped, or someone watches and its number of characters cannot be written, or it took
another number of characters than the first one.
-/
def Round.stop? (round : Round) (s : State) (first : Int) (k : Nat) : Option Stop :=
  match round.offset with
  | .error stop => some stop
  | .ok offset =>
    if s.tracing && (s.cursor.numeral? offset).isNone then some (.failure .unprintable)
    else if offset = first then none
    else some (s.uneven first offset k)

theorem Log.adds_append (log log' : Log) : log.Adds log'.live (log ++ log') :=
  ⟨log'.toList, by simp, rfl⟩

variable {commands : Eval Unit} {element : Value} {elements : Elements} {s : State}

theorem exists_trace_eq (words : List Text) (last : Option Text) (s : State) :
    ∃ log, s.log.Adds [] log ∧ trace (words.map some ++ [last]) s =
      if s.tracing && last.isNone then .error (.failure .unprintable) (s.logged log)
      else .ok () (s.logged log) := by
  cases last with
  | some word =>
    obtain ⟨log, hadds, hnote⟩ := s.exists_note_eq_logged
      (Text.join [' '] ("[DBG]".toList :: (words ++ [word])) ++ ['\n'])
    refine ⟨log, hadds, ?_⟩
    have htrace := trace_eq_note (words ++ [word]) s
    rw [List.map_append, hnote] at htrace
    simp only [Option.isNone_some, Bool.and_false, Bool.false_eq_true, ↓reduceIte]
    exact htrace
  | none =>
    have hwritten : (words.map some ++ [none]).takeWhile (·.isSome) = words.map some := by
      rw [List.takeWhile_append_of_pos (by simp)]
      simp
    have hget : (get : Eval State) s = .ok s s := rfl
    unfold trace
    rw [bind_of_ok hget, hwritten]
    cases htracing : s.tracing with
    | false => exact ⟨s.log, Log.adds_nil s.log, rfl⟩
    | true =>
      let line := Text.join [' '] ("[DBG]".toList :: words) ++ [' ']
      refine ⟨s.log.push (.trace line), ⟨[.trace line], Array.push_eq_append, rfl⟩, ?_⟩
      have hlength : ¬ words.length = (words.map some ++ [none]).length := by simp
      simp only [List.filterMap_map, Function.comp_def, id, List.filterMap_some, hlength, ↓reduceIte]
      rfl

theorem within_eq_round (hcommands : Orderly commands) (name : Text) (element : Value) (s : State) :
    within (s.cursor.assign name element) (do
        commands
        return (← index) - s.cursor.index) s =
      match (s.round commands name element).offset with
      | .error stop => .error stop (s.logged (s.log ++ (s.round commands name element).log))
      | .ok offset => .ok offset (s.logged (s.log ++ (s.round commands name element).log)) := by
  let alone : State := { s with cursor := s.cursor.assign name element, log := #[] }
  have hrun : commands { s with cursor := s.cursor.assign name element } =
      after s.log (commands alone) := by
    rw [← hcommands.appends]
    simp [State.after, alone]
  have htracing : (final (commands alone)).tracing = s.tracing := hcommands.tracing_eq alone
  unfold State.round
  cases hround : commands alone with
  | error stop s' =>
    rw [hround] at hrun htracing
    refine (within_of_error (bind_of_error hrun)).trans ?_
    simp only [State.logged, ← htracing]
    rfl
  | ok _ s' =>
    rw [hround] at hrun htracing
    have hoffset := bind_of_ok (f := fun _ => index >>= fun i => pure (i - s.cursor.index)) hrun
    refine (within_of_ok hoffset).trans ?_
    simp only [State.logged, ← htracing]
    rfl

theorem exists_runElement_eq (hcommands : Orderly commands) {shown : Text}
    (hshown : element.literal? = some shown) (name : Text) (s : State) :
    ∃ log, s.log.Adds (s.round commands name element).log.live log ∧
      runElement commands name element s =
        match (s.round commands name element).offset with
        | .error stop => .error stop (s.logged log)
        | .ok offset =>
          if s.tracing && (s.cursor.numeral? offset).isNone then
            .error (.failure .unprintable) (s.logged log)
          else .ok offset (s.logged log) := by
  have hliteral : ∀ s' : State, literalOf element s' = .ok shown s' := by
    intro s'
    unfold literalOf
    rw [hshown]
    rfl
  have hwithin := within_eq_round hcommands name element s
  have hadds := Log.adds_append s.log (s.round commands name element).log
  unfold runElement
  rw [cursor_bind]
  cases hoffset : (s.round commands name element).offset with
  | error stop =>
    rw [hoffset] at hwithin
    exact ⟨_, hadds, bind_of_error hwithin⟩
  | ok offset =>
    rw [hoffset] at hwithin
    obtain ⟨log, hlog, htrace⟩ := exists_trace_eq
      ["ITER".toList, name, ['='], shown, "offset".toList] (s.cursor.numeral? offset)
      (s.logged (s.log ++ (s.round commands name element).log))
    have hboth := hadds.trans hlog
    rw [List.append_nil] at hboth
    refine ⟨log, hboth, ?_⟩
    refine (bind_of_ok hwithin).trans ?_
    refine (bind_of_ok (hliteral _)).trans ?_
    split at htrace
    . next hbroken =>
      refine (bind_of_error htrace).trans ?_
      exact (if_pos hbroken).symm
    . next hwhole =>
      refine (bind_of_ok htrace).trans ?_
      exact (if_neg hwhole).symm

theorem failUneven_eq {α : Type} (first offset : Int) (k : Nat) (s : State) :
    (failUneven first offset k : Eval α) s = .error (s.uneven first offset k) s := by
  unfold failUneven State.uneven
  rw [cursor_bind]
  simp only [List.forIn_cons, List.forIn_nil, bind_assoc, pure_bind, List.all_cons, List.all_nil,
    Bool.and_true]
  cases s.cursor.numeral? first with
  | none => rfl
  | some _ =>
    cases s.cursor.numeral? offset with
    | none => rfl
    | some _ =>
      cases s.cursor.numeral? (offset - first) with
      | none => rfl
      | some _ => rfl

/--
One round of a loop, with the number of characters `first` that the first round took: the loop ends
there or goes on, and the events of the round are in the log.
-/
theorem iterate.exists_go_eq (hcommands : Orderly commands) {name : Text} {left : Nat}
    (hshown : ((elements.get (elements.size - (left + 1))).literal?).isSome = true) {k : Nat}
    (hk : k = elements.size - (left + 1)) {before : Option Int} {first : Int}
    (hfirst : ∀ offset, (s.round commands name (elements.get k)).offset = .ok offset →
      before.getD offset = first) (done : List Int) :
    ∃ log, s.log.Adds (s.round commands name (elements.get k)).log.live log ∧
      go commands name elements (left + 1) before done s =
        match (s.round commands name (elements.get k)).stop? s first k with
        | some stop => .error stop (s.logged log)
        | none => go commands name elements left (some first) (first :: done) (s.logged log) := by
  subst hk
  obtain ⟨shown, hshown⟩ := Option.isSome_iff_exists.mp hshown
  obtain ⟨log, hadds, hrun⟩ := exists_runElement_eq hcommands hshown name s
  refine ⟨log, hadds, ?_⟩
  rw [go]
  unfold Round.stop?
  cases hoffset : (s.round commands name (elements.get (elements.size - (left + 1)))).offset with
  | error stop =>
    rw [hoffset] at hrun
    exact bind_of_error hrun
  | ok offset =>
    rw [hoffset] at hrun
    dsimp only at hrun ⊢
    split at hrun
    . next hbroken =>
      rw [if_pos hbroken]
      exact bind_of_error hrun
    . next hwhole =>
      rw [if_neg hwhole, bind_of_ok hrun, hfirst offset hoffset]
      by_cases heq : offset = first
      . rw [if_neg (not_not_intro heq), if_pos heq, heq]
      . rw [if_pos heq, if_neg heq, bind_of_error (failUneven_eq _ _ _ _)]
        rfl

/--
If no round ends the loop, all of them took the number of characters of the first one, and all their
events are in the log.
-/
theorem iterate.exists_go_ok (hcommands : Orderly commands) (name : Text)
    (hshown : ∀ k < elements.size, ((elements.get k).literal?).isSome = true) {first : Int}
    (left : Nat) (hleft : left ≤ elements.size) (before : Option Int) (done : List Int)
    (hfirst : ∀ k offset, k + left = elements.size →
      (s.round commands name (elements.get k)).offset = .ok offset → before.getD offset = first)
    (hgoes : ∀ k < elements.size, elements.size ≤ k + left →
      (s.round commands name (elements.get k)).stop? s first k = none) :
    ∃ log, go commands name elements left before done s =
        .ok (done.reverse ++ List.replicate left first) (s.logged log) ∧
      s.log.Adds ((List.range' (elements.size - left) left).flatMap fun k =>
        (s.round commands name (elements.get k)).log.live) log := by
  induction left generalizing s before done with
  | zero =>
    refine ⟨s.log, ?_, Log.adds_nil s.log⟩
    rw [go, List.replicate_zero, List.append_nil]
    rfl
  | succ left ih =>
    have hk : elements.size - (left + 1) < elements.size := by omega
    have hnext : elements.size - (left + 1) + 1 = elements.size - left := by omega
    obtain ⟨log, hadds, hgo⟩ := exists_go_eq hcommands (hshown _ hk) rfl
      (fun offset => hfirst _ offset (by omega)) done
    rw [hgoes _ hk (by omega)] at hgo
    obtain ⟨log', hgo', hadds'⟩ := ih (s := s.logged log) (by omega) (some first) (first :: done)
      (fun _ _ _ _ => Option.getD_some) fun k hk hle => hgoes k hk (by omega)
    refine ⟨log', ?_, ?_⟩
    . rw [hgo]
      refine hgo'.trans ?_
      rw [List.reverse_cons, List.append_assoc]
      rfl
    . rw [List.range'_succ, List.flatMap_cons, hnext]
      exact hadds.trans hadds'

/--
The first round that ends the loop is the last one that is run, and the cursor is where it was.
-/
theorem iterate.exists_go_error (hcommands : Orderly commands) (name : Text)
    (hshown : ∀ k < elements.size, ((elements.get k).literal?).isSome = true) {first : Int}
    (left : Nat) (hleft : left ≤ elements.size) (before : Option Int) (done : List Int)
    (hfirst : ∀ k offset, k + left = elements.size →
      (s.round commands name (elements.get k)).offset = .ok offset → before.getD offset = first)
    {n : Nat} (hn : n < left) {stop : Stop}
    (hgoes : ∀ k, elements.size ≤ k + left → k < elements.size - left + n →
      (s.round commands name (elements.get k)).stop? s first k = none)
    (hstop : (s.round commands name (elements.get (elements.size - left + n))).stop? s first
      (elements.size - left + n) = some stop) :
    ∃ log, go commands name elements left before done s = .error stop (s.logged log) ∧
      s.log.Adds ((List.range' (elements.size - left) (n + 1)).flatMap fun k =>
        (s.round commands name (elements.get k)).log.live) log := by
  induction left generalizing s before done n with
  | zero => omega
  | succ left ih =>
    have hk : elements.size - (left + 1) < elements.size := by omega
    have hnext : elements.size - (left + 1) + 1 = elements.size - left := by omega
    obtain ⟨log, hadds, hgo⟩ := exists_go_eq hcommands (hshown _ hk) rfl
      (fun offset => hfirst _ offset (by omega)) done
    cases n with
    | zero =>
      rw [Nat.add_zero] at hstop
      rw [hstop] at hgo
      refine ⟨log, hgo, ?_⟩
      rw [List.range'_one, List.flatMap_singleton]
      exact hadds
    | succ n =>
      have hplace : elements.size - (left + 1) + (n + 1) = elements.size - left + n := by omega
      rw [hgoes _ (by omega) (by omega)] at hgo
      rw [hplace] at hstop
      obtain ⟨log', hgo', hadds'⟩ := ih (s := s.logged log) (by omega) (some first) (first :: done)
        (fun _ _ _ _ => Option.getD_some) (by omega) (fun k hle hlt => hgoes k (by omega) (by omega))
        hstop
      refine ⟨log', hgo.trans hgo', ?_⟩
      rw [List.range'_succ, List.flatMap_cons, hnext]
      exact hadds.trans hadds'

theorem exists_iterate_ok (hcommands : Orderly commands) {name : Text}
    (hshown : ∀ k < elements.size, ((elements.get k).literal?).isSome = true) {first : Int}
    (hfirst : ∀ offset, (s.round commands name (elements.get 0)).offset = .ok offset → offset = first)
    (hgoes : ∀ k < elements.size, (s.round commands name (elements.get k)).stop? s first k = none) :
    ∃ log, iterate commands name elements s = .ok (List.replicate elements.size first)
        ((s.logged log).advance (if elements.size = 0 then 0 else first)) ∧
      s.log.Adds ((List.range elements.size).flatMap fun k =>
        (s.round commands name (elements.get k)).log.live) log := by
  obtain ⟨log, hgo, hadds⟩ := iterate.exists_go_ok (s := s) hcommands name hshown
    elements.size (Nat.le_refl _) none [] (fun k offset hk => by
      obtain rfl : k = 0 := by omega
      exact hfirst offset) fun k hk _ => hgoes k hk
  rw [Nat.sub_self, ← List.range_eq_range'] at hadds
  rw [List.reverse_nil, List.nil_append] at hgo
  refine ⟨log, (bind_of_ok hgo).trans ?_, hadds⟩
  rw [List.head?_replicate]
  split
  . rw [State.advance_zero]
    rfl
  . rfl

theorem exists_iterate_error (hcommands : Orderly commands) {name : Text}
    (hshown : ∀ k < elements.size, ((elements.get k).literal?).isSome = true) {first : Int}
    (hfirst : ∀ offset, (s.round commands name (elements.get 0)).offset = .ok offset → offset = first)
    {k : Nat} (hk : k < elements.size) {stop : Stop}
    (hgoes : ∀ j < k, (s.round commands name (elements.get j)).stop? s first j = none)
    (hstop : (s.round commands name (elements.get k)).stop? s first k = some stop) :
    ∃ log, iterate commands name elements s = .error stop (s.logged log) ∧
      s.log.Adds ((List.range (k + 1)).flatMap fun j =>
        (s.round commands name (elements.get j)).log.live) log := by
  obtain ⟨log, hgo, hadds⟩ := iterate.exists_go_error (s := s) hcommands name hshown
    elements.size (Nat.le_refl _) none [] (fun k offset hk => by
      obtain rfl : k = 0 := by omega
      exact hfirst offset) hk (fun j _ hj => hgoes j (by omega))
    (by rw [Nat.sub_self, Nat.zero_add]; exact hstop)
  rw [Nat.sub_self, ← List.range_eq_range'] at hadds
  exact ⟨log, bind_of_error hgo, hadds⟩

/--
A loop does all or nothing. The rounds are run in order, each as if there were no other one, up to the
first that ends the loop; their events, and no others, are added to the log. If no round ends the
loop, each of them took as many characters as the first one, and the cursor moves by that number.
Otherwise the loop ends for the reason of that round, and the cursor is where it was.
-/
theorem iterate_all_or_nothing {registry : Registry Command} (hregistry : registry.Has Orderly)
    (level : Nat) (s : State) (name : Text) (elements : Elements)
    (hshown : ∀ k < elements.size, ((elements.get k).literal?).isSome = true) (first : Int) :
    let commands := (Evaluator.ofLevel registry level).commands
    let round := fun k => s.round commands name (elements.get k)
    (∀ offset, (round 0).offset = .ok offset → offset = first) →
      ((∀ k < elements.size, (round k).stop? s first k = none) →
        ∃ log, iterate commands name elements s = .ok (List.replicate elements.size first)
            ((s.logged log).advance (if elements.size = 0 then 0 else first)) ∧
          s.log.Adds ((List.range elements.size).flatMap fun k => (round k).log.live) log) ∧
      ∀ k < elements.size, ∀ stop, (∀ j < k, (round j).stop? s first j = none) →
        (round k).stop? s first k = some stop →
        ∃ log, iterate commands name elements s = .error stop (s.logged log) ∧
          s.log.Adds ((List.range (k + 1)).flatMap fun j => (round j).log.live) log := by
  intro commands round hfirst
  have hcommands : Orderly commands := (Evaluator.orderly_ofLevel hregistry level).commands
  constructor
  . intro hgoes
    exact exists_iterate_ok hcommands hshown hfirst hgoes
  . intro k hk stop hgoes hstop
    exact exists_iterate_error hcommands hshown hfirst hk hgoes hstop

/--
Before `say $n;eat ;;;;`, where `eat` takes `n` semicolons and one more ends the line.
-/
def beforeEating : State := { cursor := { buffer := "say $n;eat ;;;;".toList } }

theorem iterate_all_or_nothing_eating :
    let elements := Elements.ofList [.int 1, .int 1, .int 2, .int 3]
    (∀ k < elements.size, ((elements.get k).literal?).isSome = true) ∧
      ∃ log, iterate (Evaluator.ofLevel Probe.registry 3).commands ['n'] elements beforeEating =
          .error (.fault ⟨.unevenIteration 13 14 2, some 0, some "say $n;eat ;;;;".toList⟩)
            (beforeEating.logged log) ∧
        beforeEating.log.Adds
          [.effect ⟨.stdout, ['1']⟩, .effect ⟨.stdout, ['1']⟩, .effect ⟨.stdout, ['2']⟩] log := by
  intro elements
  let round := fun k =>
    beforeEating.round (Evaluator.ofLevel Probe.registry 3).commands ['n'] (elements.get k)
  have hshown : ∀ k < elements.size, ((elements.get k).literal?).isSome = true := by decide +kernel
  have hfirst : ∀ offset, (round 0).offset = .ok offset → offset = 13 := by
    have hround : (round 0).offset = .ok 13 := by decide +kernel
    intro offset hoffset
    rw [hround] at hoffset
    cases hoffset
    rfl
  have hgoes : ∀ j < 2, (round j).stop? beforeEating 13 j = none := by decide +kernel
  have hstop : (round 2).stop? beforeEating 13 2 =
      some (.fault ⟨.unevenIteration 13 14 2, some 0, some "say $n;eat ;;;;".toList⟩) := by
    decide +kernel
  have hevents : ((List.range 3).flatMap fun j => (round j).log.live) =
      [.effect ⟨.stdout, ['1']⟩, .effect ⟨.stdout, ['1']⟩, .effect ⟨.stdout, ['2']⟩] := by
    decide +kernel
  obtain ⟨-, herror⟩ := iterate_all_or_nothing Probe.orderly_registry 3 beforeEating ['n'] elements
    hshown 13 hfirst
  obtain ⟨log, hiterate, hadds⟩ := herror 2 (by decide) _ hgoes hstop
  rw [← hevents]
  exact ⟨hshown, log, hiterate, hadds⟩

theorem Numeral.length_ofNat_le_iff {n digits : Nat} (h : 0 < digits) :
    (ofNat n).length ≤ digits ↔ n < Nat.pow 10 digits :=
  Nat.length_toDigits_le_iff (by decide) h

theorem Cursor.numeral?_eq_none {c : Cursor} {i : Int} (hlong : c.buffer.length < i.natAbs)
    (h : Nat.pow 10 Numeral.digitLimit ≤ i.natAbs) : c.numeral? i = none := by
  unfold numeral? Numeral.ofInt?
  rw [if_neg (Nat.not_le.mpr hlong), if_neg]
  rw [Numeral.length_ofNat_le_iff (by decide)]
  exact Nat.not_lt.mpr h

theorem Round.stop?_of_unwritten {round : Round} {first offset : Int} (k : Nat)
    (hoffset : round.offset = .ok offset) (hne : offset ≠ first)
    (hnumeral : s.cursor.numeral? offset = none) :
    round.stop? s first k = some (.failure .unprintable) := by
  unfold stop? State.uneven
  simp only [hoffset, hnumeral, hne, List.all_cons, Option.isSome_none, Bool.false_and, Bool.and_false,
    Bool.false_eq_true, ↓reduceIte, ite_self]

/--
Before `$i`, with a number in `n` that has as many digits as can be written.
-/
def beforeFar : State :=
  { cursor := { buffer := "$i".toList,
                scope := .ofList [(['n'], .int (Nat.pow 10 Numeral.digitLimit - 1 : Nat))] } }

/--
A fault cannot be told if it names a number with too many digits. Both rounds come to their end, the
first one after two characters, the other one far behind the text, and the loop ends with a failure.
-/
theorem iterate_far_offset_fails :
    let commands := (Evaluator.ofLevel Probe.registry 2).commands
    let elements := Elements.ofList [.text "mark".toList, .text "eat".toList]
    let round := fun k => beforeFar.round commands ['i'] (elements.get k)
    (∀ k < elements.size, ((elements.get k).literal?).isSome = true) ∧
      (round 0).offset = .ok 2 ∧
      (round 1).offset = .ok (Nat.pow 10 Numeral.digitLimit + 1 : Nat) ∧
      ∃ log, iterate commands ['i'] elements beforeFar =
        .error (.failure .unprintable) (beforeFar.logged log) := by
  intro commands elements round
  have hshown : ∀ k < elements.size, ((elements.get k).literal?).isSome = true := by decide +kernel
  have hnear : (round 0).offset = .ok 2 := by decide +kernel
  have hfar : (round 1).offset = .ok (Nat.pow 10 Numeral.digitLimit + 1 : Nat) := by decide +kernel
  have hgoes : ∀ j < 1, (round j).stop? beforeFar 2 j = none := by decide +kernel
  have hnumeral : beforeFar.cursor.numeral? (Nat.pow 10 Numeral.digitLimit + 1 : Nat) = none :=
    Cursor.numeral?_eq_none (by decide +kernel) (by decide +kernel)
  have hstop : (round 1).stop? beforeFar 2 1 = some (.failure .unprintable) :=
    Round.stop?_of_unwritten 1 hfar (by decide +kernel) hnumeral
  have hfirst : ∀ offset, (round 0).offset = .ok offset → offset = 2 := by
    intro offset hoffset
    rw [hnear] at hoffset
    cases hoffset
    rfl
  obtain ⟨log, hiterate, -⟩ := exists_iterate_error
    (Evaluator.orderly_ofLevel Probe.orderly_registry 2).commands hshown hfirst (by decide) hgoes hstop
  exact ⟨hshown, hnear, hfar, log, hiterate⟩

end LineScript
