import LineScript.Proofs.Tables
import LineScript.Registry

/-!
This module contains what registries hold after any calls. Each call asks for some writes, and a
registry is the table of all writes of its own calls: the last write to a name wins, and the calls on
other registries make no difference.
-/

namespace LineScript

variable {α ι : Type}

/--
The name and the handler that a member asks to be written: it has to be callable, and its own mark is
the name, or it has no mark and the inner one is the name.
-/
def Member.write? (m : Member α) : Option (Text × α) :=
  match m.callable, m.mark, m.innerMark with
  | true, some (.name name), _ => some (name, m.handler)
  | true, none, some (.name name) => some (name, m.handler)
  | _, _, _ => none

theorem Member.map_boundName? (m : Member α) : m.boundName?.map (·, m.handler) = m.write? := by
  obtain ⟨handler, callable, mark, innerMark⟩ := m
  unfold boundName? write?
  cases callable with
  | false => rfl
  | true =>
    cases mark with
    | some mark => cases mark <;> rfl
    | none =>
      cases innerMark with
      | some mark => cases mark <;> rfl
      | none => rfl

/--
An object whose members can be bound. No two of its attributes have the same name.
-/
structure Host (α : Type) where
  attributes : List (Text × Member α)
  nodup : (attributes.map (·.1)).Nodup

namespace Registry

/--
A call that writes to a registry.
-/
inductive Call (α : Type)
  | register (name : Text) (handler : α)
  | bind (host : Host α)

namespace Call

/--
The writes that a call asks for. The members of an object come in the order of the names of its
attributes.
-/
def writes : Call α → List (Text × α)
  | .register name handler => [(name, handler)]
  | .bind host => (Table.sorted host.attributes).filterMap fun (_, m) => m.write?

/--
What a call is answered: the names that it wrote, if it binds an object.
-/
def answer : Call α → Option (List Text)
  | .register .. => none
  | call@(.bind _) => some (call.writes.map (·.1))

/--
Make the call.
-/
def run (registry : Registry α) : Call α → Registry α × Option (List Text)
  | .register name handler => (registry.register name handler, none)
  | .bind host =>
    let (registry, names) := Registry.bind registry (.ofList host.attributes)
    (registry, some names)

theorem writes_group (host : Host α) :
    Registry.writes (.ofList host.attributes) = (Call.bind host).writes := by
  unfold Registry.writes writes
  rw [Table.entries_ofList host.nodup]
  congr 1
  funext ⟨_, m⟩
  exact m.map_boundName?

theorem run_eq (registry : Registry α) (call : Call α) :
    call.run registry = (registry.insertAll call.writes, call.answer) := by
  cases call with
  | register name handler => rfl
  | bind host =>
    simp only [run, Registry.bind, writes_group]
    rfl

end Call

variable [DecidableEq ι]

/--
Make calls on registries one after another, and give what they were answered.
-/
def serve (registries : ι → Registry α) :
    List (ι × Call α) → (ι → Registry α) × List (Option (List Text))
  | [] => (registries, [])
  | (i, call) :: calls =>
    let (registry, answer) := call.run (registries i)
    let (registries, answers) := serve (fun j => if j = i then registry else registries j) calls
    (registries, answer :: answers)

/--
The writes of the calls on one registry.
-/
def writesTo (i : ι) (calls : List (ι × Call α)) : List (Text × α) :=
  (calls.filter (·.1 = i)).flatMap (·.2.writes)

theorem serve_registry (registries : ι → Registry α) (calls : List (ι × Call α)) (i : ι) :
    (serve registries calls).1 i = (registries i).insertAll (writesTo i calls) := by
  induction calls generalizing registries with
  | nil => rfl
  | cons call calls ih =>
    obtain ⟨j, call⟩ := call
    unfold serve
    rw [Call.run_eq]
    refine (ih _).trans ?_
    by_cases hij : i = j
    . subst hij
      simp [writesTo, Table.insertAll, List.foldl_append]
    . have hji : ¬ j = i := fun h => hij h.symm
      simp [writesTo, hij, hji]

theorem serve_answers (registries : ι → Registry α) (calls : List (ι × Call α)) :
    (serve registries calls).2 = calls.map (·.2.answer) := by
  induction calls generalizing registries with
  | nil => rfl
  | cons call calls ih =>
    obtain ⟨j, call⟩ := call
    unfold serve
    rw [Call.run_eq]
    exact congrArg (call.answer :: ·) (ih _)

/--
After any calls on any registries, a registry is the map of the last writes of its own calls. Each call
that binds an object was answered by the names of its writes, and calls on the other registries change
nothing.
-/
theorem serve_keeps_last_writes (calls : List (ι × Call α)) (i : ι) :
    let registry := (serve (fun _ => Table.empty) calls).1 i
    let writes := writesTo i calls
    (∀ name handler, Registry.lookup registry name = some handler ↔
        ∃ before after, writes = before ++ (name, handler) :: after ∧ name ∉ after.map (·.1)) ∧
      (∀ name, Registry.lookup registry name = none ↔ name ∉ writes.map (·.1)) ∧
      (∀ name, registry.contains name = true ↔ Registry.lookup registry name ≠ none) ∧
      registry.names.Pairwise (· < ·) ∧
      (∀ name, name ∈ registry.names ↔ name ∈ writes.map (·.1)) ∧
      registry.size = registry.names.length ∧
      (serve (fun _ => Table.empty) calls).2 = calls.map (·.2.answer) ∧
      ∀ registries : ι → Registry α,
        (serve registries (calls.filter (·.1 ≠ i))).1 i = registries i := by
  intro registry writes
  have hregistry : registry = Table.ofList writes := serve_registry _ calls i
  rw [hregistry]
  refine ⟨fun name handler => ?_, fun name => ?_, fun name => ?_, ?_, fun name => ?_, ?_,
    serve_answers _ calls, fun registries => ?_⟩
  . exact Table.find?_ofList_eq_some_iff
  . exact Table.find?_ofList_eq_none_iff
  . exact Option.isSome_iff_ne_none
  . exact Table.ordered_empty.insertAll writes
  . exact Table.mem_names_ofList
  . exact (List.length_map _).symm
  . have hothers : writesTo i (calls.filter (·.1 ≠ i)) = [] := by
      simp [writesTo, List.filter_filter]
    rw [serve_registry, hothers]
    rfl

end Registry

end LineScript
