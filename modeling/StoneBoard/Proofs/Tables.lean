import StoneBoard.Table
import Mathlib.Data.List.Basic

/-!
# Lookups in tables

What a table tells of a name after entries have been set or taken away.
-/

namespace StoneBoard

open List

namespace Table

variable {α : Type}
variable {name : String}
variable {table : Table α} {value : α}

@[simp]
theorem get?_nil (name : String) : get? ([] : Table α) name = none := rfl

theorem get?_cons (table : Table α) (name other : String) (value : α) :
    get? ((name, value) :: table) other =
      if other = name then some value else table.get? other := by
  unfold get?
  rw [lookup_cons]
  by_cases same : other = name
  · simp [same]
  · have differ : (other == name) = false := by simpa using same
    simp [differ, same]

theorem get?_erase (table : Table α) (name other : String) :
    (table.erase name).get? other = if other = name then none else table.get? other := by
  induction table with
  | nil => simp [erase]
  | cons entry rest ih =>
    obtain ⟨entryName, value⟩ := entry
    unfold erase at ih ⊢
    by_cases dropped : entryName = name
    · simp only [filter_cons, dropped, bne_self_eq_false, Bool.false_eq_true, if_false, ih,
        get?_cons]
      by_cases same : other = name <;> simp [same]
    · have kept : (entryName != name) = true := by simpa using dropped
      simp only [filter_cons, kept, if_true, get?_cons, ih]
      by_cases same : other = entryName
      · subst same
        simp [dropped]
      · simp [same]

theorem get?_insert (table : Table α) (name other : String) (value : α) :
    (table.insert name value).get? other =
      if other = name then some value else table.get? other := by
  unfold insert
  rw [get?_cons, get?_erase]
  by_cases same : other = name <;> simp [same]

theorem get?_append (first second : Table α) (name : String) :
    get? (first ++ second) name = (first.get? name).or (second.get? name) := by
  induction first with
  | nil => simp
  | cons entry rest ih =>
    obtain ⟨entryName, value⟩ := entry
    rw [cons_append, get?_cons, get?_cons, ih]
    by_cases same : name = entryName <;> simp [same]

theorem get?_insertAll (table : Table α) (entries : List (String × α)) (name : String) :
    (table.insertAll entries).get? name = (get? entries.reverse name).or (table.get? name) := by
  induction entries generalizing table with
  | nil => rfl
  | cons entry rest ih =>
    obtain ⟨entryName, value⟩ := entry
    have unfolded : table.insertAll ((entryName, value) :: rest) =
        (table.insert entryName value).insertAll rest := rfl
    rw [unfolded, ih, get?_insert, reverse_cons, get?_append, get?_cons, Option.or_assoc]
    by_cases same : name = entryName <;> simp [same]

theorem get?_eq_none_iff : table.get? name = none ↔ name ∉ table.map Prod.fst := by
  induction table with
  | nil => simp
  | cons entry rest ih =>
    obtain ⟨entryName, value⟩ := entry
    rw [get?_cons]
    by_cases same : name = entryName <;> simp [same, ih]

theorem mem_of_get? (found : table.get? name = some value) : (name, value) ∈ table := by
  obtain ⟨before, after, rfl, -⟩ := List.lookup_eq_some_iff.mp found
  simp

theorem get?_of_mem (differ : (table.map Prod.fst).Nodup)
    (mem : (name, value) ∈ table) : table.get? name = some value := by
  induction table with
  | nil => cases mem
  | cons entry rest ih =>
    obtain ⟨entryName, entryValue⟩ := entry
    rw [map_cons, nodup_cons] at differ
    rw [get?_cons]
    rcases List.mem_cons.mp mem with same | later
    · cases same
      rw [if_pos rfl]
    · have listed : name ∈ rest.map Prod.fst := mem_map_of_mem later
      have otherName : name ≠ entryName := by
        rintro rfl
        exact differ.1 listed
      rw [if_neg otherName, ih differ.2 later]

theorem nodup_erase (differ : (table.map Prod.fst).Nodup) (name : String) :
    ((table.erase name).map Prod.fst).Nodup :=
  differ.sublist (List.filter_sublist.map Prod.fst)

theorem nodup_insert (differ : (table.map Prod.fst).Nodup) (name : String)
    (value : α) : ((table.insert name value).map Prod.fst).Nodup := by
  rw [insert, map_cons, nodup_cons, ← get?_eq_none_iff, get?_erase, if_pos rfl]
  exact ⟨rfl, nodup_erase differ name⟩

theorem nodup_insertAll (differ : (table.map Prod.fst).Nodup)
    (entries : List (String × α)) : ((table.insertAll entries).map Prod.fst).Nodup :=
  List.foldlRecOn (motive := fun known : Table α => (known.map Prod.fst).Nodup) entries _ differ
    fun _ differ entry _ => nodup_insert differ entry.1 entry.2

theorem perm_sorted (table : Table α) : (table.sorted.map Prod.fst).Perm (table.map Prod.fst) :=
  (mergeSort_perm table _).map Prod.fst

theorem get?_reverse {entries : List (String × α)} (differ : (entries.map Prod.fst).Nodup)
    (name : String) : get? entries.reverse name = get? entries name := by
  induction entries with
  | nil => rfl
  | cons entry rest ih =>
    obtain ⟨entryName, value⟩ := entry
    rw [map_cons, nodup_cons] at differ
    rw [reverse_cons, get?_append, ih differ.2, get?_cons, get?_cons]
    by_cases same : name = entryName
    · subst same
      simp [get?_eq_none_iff.mpr differ.1]
    · simp [same]

theorem get?_map {β : Type} (items : List β) (key : β → String) (value : β → α) (name : String) :
    get? (items.map fun item => (key item, value item)) name =
      (items.find? fun item => key item == name).map value := by
  induction items with
  | nil => rfl
  | cons first rest ih =>
    rw [map_cons, get?_cons, find?_cons, ih]
    by_cases same : name = key first
    · simp [same]
    · rw [if_neg same, beq_eq_false_iff_ne.mpr (Ne.symm same)]

/-- Two tables have the same names, with related values. -/
def Related {β : Type} (related : α → β → Prop) (first : Table α) (second : Table β) : Prop :=
  ∀ name, Option.Rel related (first.get? name) (second.get? name)

namespace Related

variable {β : Type} {related : α → β → Prop} {first : Table α} {second : Table β}

theorem nil : Related related [] [] := fun _ => .none

theorem insert (tables : Related related first second) (name : String) {other : β}
    (values : related value other) :
    Related related (first.insert name value) (second.insert name other) := by
  intro known
  rw [get?_insert, get?_insert]
  split
  · exact .some values
  · exact tables known

end Related

end Table

end StoneBoard
