import LineScript.Table
import Mathlib.Data.Char
import Mathlib.Data.List.Lex
import Mathlib.Data.List.Nodup

/-!
This module contains the theory of tables. What is found in a table after some writes is what was
written last, and its names are in order, each of them once, whatever the order of the writes. If no
name is written twice, to make a table of the writes is to sort them.
-/

namespace LineScript.Table

variable {α : Type} {table : Table α} {entries writes : List (Text × α)} {name key : Text} {value : α}

theorem lookup_insert_go (name key : Text) (value : α) (entries : List (Text × α)) :
    (insert.go name value entries).lookup key =
      if key = name then some value else entries.lookup key := by
  induction entries with
  | nil =>
    simp only [insert.go, List.lookup_cons, List.lookup_nil]
    grind
  | cons entry entries ih =>
    obtain ⟨other, old⟩ := entry
    unfold insert.go
    split
    . simp only [List.lookup_cons]
      grind
    . split
      . simp only [List.lookup_cons]
        grind
      . simp only [List.lookup_cons, ih]
        grind

theorem find?_insert (table : Table α) (name key : Text) (value : α) :
    (table.insert name value).find? key = if key = name then some value else table.find? key :=
  lookup_insert_go name key value table.entries

/--
The last write to a name decides; a name that is not written keeps its value.
-/
theorem find?_insertAll (table : Table α) (writes : List (Text × α)) (key : Text) :
    (table.insertAll writes).find? key = (writes.reverse.lookup key).or (table.find? key) := by
  induction writes generalizing table with
  | nil => rfl
  | cons write writes ih =>
    have hfirst : [write].lookup key = if key = write.1 then some write.2 else none := by
      obtain ⟨name, value⟩ := write
      simp only [List.lookup_cons, List.lookup_nil]
      grind
    refine (ih (table.insert write.1 write.2)).trans ?_
    rw [find?_insert, List.reverse_cons, List.lookup_append, hfirst, Option.or_assoc]
    split
    . rfl
    . rfl

theorem find?_ofList (writes : List (Text × α)) (key : Text) :
    (ofList writes).find? key = writes.reverse.lookup key := by
  rw [ofList, find?_insertAll]
  exact Option.or_none

theorem find?_ofList_eq_some_iff : (ofList writes).find? key = some value ↔
    ∃ before after, writes = before ++ (key, value) :: after ∧ key ∉ after.map (·.1) := by
  rw [find?_ofList, List.lookup_eq_some_iff]
  constructor
  . rintro ⟨after, before, hwrites, hafter⟩
    refine ⟨before.reverse, after.reverse, ?_, ?_⟩
    . rw [List.reverse_eq_iff] at hwrites
      simpa using hwrites
    . intro hmem
      obtain ⟨write, hwrite, rfl⟩ := List.mem_map.mp hmem
      simpa using hafter write (List.mem_reverse.mp hwrite)
  . rintro ⟨before, after, rfl, hafter⟩
    refine ⟨after.reverse, before.reverse, by simp, ?_⟩
    intro write hwrite
    rw [bne_iff_ne]
    rintro rfl
    exact hafter (List.mem_map_of_mem (List.mem_reverse.mp hwrite))

theorem find?_ofList_eq_none_iff : (ofList writes).find? key = none ↔ key ∉ writes.map (·.1) := by
  rw [find?_ofList, List.lookup_eq_none_iff]
  simp only [List.mem_reverse, bne_iff_ne, List.mem_map, not_exists, not_and, ne_comm (a := key)]

theorem mem_of_lookup (h : entries.lookup key = some value) : (key, value) ∈ entries := by
  obtain ⟨before, after, hentries, -⟩ := List.lookup_eq_some_iff.mp h
  rw [hentries]
  exact List.mem_append_right before List.mem_cons_self

theorem mem_entries_of_find? (h : table.find? key = some value) : (key, value) ∈ table.entries :=
  mem_of_lookup h

theorem mem_names_iff : key ∈ table.names ↔ table.contains key = true := by
  unfold names contains find?
  rw [List.lookup_isSome_iff, List.mem_map]
  simp only [beq_iff_eq, eq_comm (a := key)]

theorem mem_names_insert :
    key ∈ (table.insert name value).names ↔ key = name ∨ key ∈ table.names := by
  rw [mem_names_iff, mem_names_iff, contains, contains, find?_insert]
  split <;> simp [*]

theorem mem_names_ofList : key ∈ (ofList writes).names ↔ key ∈ writes.map (·.1) := by
  rw [mem_names_iff, contains, ← not_iff_not, ← find?_ofList_eq_none_iff, Option.not_isSome_iff_eq_none]

/--
The names are in order, and each of them has one entry.
-/
def Ordered (table : Table α) : Prop := table.names.Pairwise (· < ·)

theorem ordered_empty : (empty : Table α).Ordered := List.Pairwise.nil

theorem Ordered.insert (h : table.Ordered) (name : Text) (value : α) :
    (table.insert name value).Ordered := by
  obtain ⟨entries⟩ := table
  induction entries with
  | nil => exact List.pairwise_singleton _ name
  | cons entry entries ih =>
    obtain ⟨key, old⟩ := entry
    obtain ⟨hkey, hrest⟩ := List.pairwise_cons.mp h
    unfold Ordered Table.insert names insert.go
    split
    . next hlt =>
      refine List.pairwise_cons.mpr ⟨?_, h⟩
      intro other hother
      cases List.mem_cons.mp hother with
      | inl heq => exact heq ▸ hlt
      | inr hmem => exact Std.lt_trans hlt (hkey other hmem)
    . split
      . next heq =>
        subst heq
        exact h
      . next hge hne =>
        have hlt : key < name := Std.lt_of_le_of_ne (Std.not_lt.mp hge) (Ne.symm hne)
        refine List.pairwise_cons.mpr ⟨?_, ih hrest⟩
        intro other hother
        cases (@mem_names_insert _ ⟨entries⟩ name other value).mp hother with
        | inl heq => exact heq ▸ hlt
        | inr hmem => exact hkey other hmem

theorem Ordered.insertAll (h : table.Ordered) (writes : List (Text × α)) :
    (table.insertAll writes).Ordered := by
  induction writes generalizing table with
  | nil => exact h
  | cons write writes ih => exact ih (h.insert write.1 write.2)

theorem perm_insert_go (h : name ∉ entries.map (·.1)) :
    (insert.go name value entries).Perm ((name, value) :: entries) := by
  induction entries with
  | nil => exact List.Perm.refl _
  | cons entry entries ih =>
    obtain ⟨key, old⟩ := entry
    obtain ⟨hne, hrest⟩ := List.ne_and_not_mem_of_not_mem_cons h
    unfold insert.go
    rw [if_neg hne]
    split
    . exact List.Perm.refl _
    . exact ((ih hrest).cons _).trans (List.Perm.swap _ _ _)

theorem perm_insertAll (hwrites : (writes.map (·.1)).Nodup)
    (hnew : ∀ name ∈ writes.map (·.1), name ∉ table.names) :
    (table.insertAll writes).entries.Perm (writes ++ table.entries) := by
  induction writes generalizing table with
  | nil => exact List.Perm.refl _
  | cons write writes ih =>
    obtain ⟨hfresh, hrest⟩ := List.nodup_cons.mp hwrites
    have hwrite : write.1 ∉ table.names := hnew write.1 List.mem_cons_self
    have hinsert : (table.insert write.1 write.2).entries.Perm (write :: table.entries) :=
      perm_insert_go hwrite
    refine (ih hrest ?_).trans ((hinsert.append_left writes).trans List.perm_middle)
    intro name hname hmem
    cases mem_names_insert.mp hmem with
    | inl heq =>
      rw [heq] at hname
      exact hfresh hname
    | inr hmem => exact hnew name (List.mem_cons_of_mem _ hname) hmem

/--
The entries of a list in the order of their names.
-/
def sorted (entries : List (Text × α)) : List (Text × α) :=
  entries.mergeSort fun entry other => entry.1 ≤ other.1

theorem pairwise_sorted (entries : List (Text × α)) :
    (sorted entries).Pairwise fun entry other => entry.1 ≤ other.1 := by
  have hsorted : (sorted entries).Pairwise fun entry other => decide (entry.1 ≤ other.1) = true := by
    apply List.pairwise_mergeSort
    . intro a b c hab hbc
      rw [decide_eq_true_eq] at hab hbc ⊢
      exact Std.le_trans hab hbc
    . intro a b
      rw [Bool.or_eq_true, decide_eq_true_eq, decide_eq_true_eq]
      exact Std.le_total
  exact hsorted.imp of_decide_eq_true

/--
A table of writes that all have names of their own holds them in the order of these names.
-/
theorem entries_ofList (h : (writes.map (·.1)).Nodup) : (ofList writes).entries = sorted writes := by
  have hperm : (ofList writes).entries.Perm writes := by
    have hperm := @perm_insertAll _ empty writes h fun _ _ => List.not_mem_nil
    rw [empty, List.append_nil] at hperm
    exact hperm
  have hordered : (ofList writes).entries.Pairwise fun entry other => entry.1 ≤ other.1 :=
    (List.pairwise_map.mp (ordered_empty.insertAll writes)).imp Std.le_of_lt
  refine List.Perm.eq_of_pairwise ?_ hordered (pairwise_sorted writes)
    (hperm.trans (List.mergeSort_perm writes _).symm)
  -- two entries of one name are the same write
  intro entry other hentry hother hle hge
  have hname : entry.1 = other.1 := Std.le_antisymm hle hge
  have hentry' : entry ∈ writes := hperm.mem_iff.mp hentry
  have hother' : other ∈ writes := (List.mergeSort_perm writes _).mem_iff.mp hother
  exact List.inj_on_of_nodup_map h hentry' hother' hname

end LineScript.Table
