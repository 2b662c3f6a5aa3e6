import Mathlib.Data.List.AList

/-!
# Tables

A finite map that is counted: what a change of one entry, an insertion and a
removal do to its lookups, to how many entries there are and to how many of them
are of a kind.
-/

/-- A finite map. -/
abbrev Table (κ α : Type) := AList fun _ : κ => α

namespace Table

variable {κ α : Type} [DecidableEq κ]

/-- Changes the entry of a key, if it has one. -/
def modify (key : κ) (f : α → α) (table : Table κ α) : Table κ α :=
  match table.lookup key with
  | some value => table.insert key (f value)
  | none => table

/-- Changes every value. -/
def mapValues (f : κ → α → α) (table : Table κ α) : Table κ α where
  entries := table.entries.map fun entry => ⟨entry.1, f entry.1 entry.2⟩
  nodupKeys := by
    have keys : List.keys (table.entries.map fun entry =>
        (⟨entry.1, f entry.1 entry.2⟩ : Sigma fun _ : κ => α)) = table.entries.keys := by
      simp [List.keys, Function.comp_def]
    rw [List.NodupKeys, keys]
    exact table.nodupKeys

def size (table : Table κ α) : Nat := table.entries.length

/-- How many values are of a kind. -/
def count (p : α → Bool) (table : Table κ α) : Nat := table.entries.countP fun entry => p entry.2

variable {table : Table κ α} {key other : κ} {value : α} {f : α → α}

theorem modify_of_some (found : table.lookup key = some value) :
    table.modify key f = table.insert key (f value) := by
  rw [modify, found]

theorem modify_of_none (missing : table.lookup key = none) : table.modify key f = table := by
  rw [modify, missing]

@[simp] theorem lookup_modify (key : κ) (f : α → α) (table : Table κ α) :
    (table.modify key f).lookup key = (table.lookup key).map f := by
  cases found : table.lookup key with
  | some value =>
    rw [modify_of_some found, AList.lookup_insert]
    rfl
  | none => rw [modify_of_none found, found, Option.map_none]

theorem modify_congr {g : α → α} (found : table.lookup key = some value)
    (same : f value = g value) : table.modify key f = table.modify key g := by
  rw [modify_of_some found, modify_of_some found, same]

theorem lookup_modify_ne (differ : other ≠ key) (f : α → α) (table : Table κ α) :
    (table.modify key f).lookup other = table.lookup other := by
  cases found : table.lookup key with
  | some value => rw [modify_of_some found, AList.lookup_insert_ne differ]
  | none => rw [modify_of_none found]

theorem lookup_mapValues (f : κ → α → α) (table : Table κ α) (key : κ) :
    (table.mapValues f).lookup key = (table.lookup key).map (f key) := by
  have entry (value : α) :
      (table.mapValues f).lookup key = some value ↔
        ∃ old, table.lookup key = some old ∧ f key old = value := by
    rw [← Option.mem_def, AList.mem_lookup_iff]
    constructor
    · intro member
      obtain ⟨⟨key', old⟩, listed, same⟩ := List.mem_map.mp member
      cases same
      exact ⟨old, AList.mem_lookup_iff.mpr listed, rfl⟩
    · rintro ⟨old, found, rfl⟩
      exact List.mem_map.mpr ⟨⟨key, old⟩, AList.mem_lookup_iff.mp found, rfl⟩
  cases found : table.lookup key with
  | some old => exact (entry _).mpr ⟨old, found, rfl⟩
  | none =>
    cases present : (table.mapValues f).lookup key with
    | none => rfl
    | some value =>
      obtain ⟨old, found', -⟩ := (entry value).mp present
      rw [found] at found'
      cases found'

/-- An entry that is there, and the others. -/
theorem entries_perm (found : table.lookup key = some value) :
    table.entries.Perm (⟨key, value⟩ :: (table.erase key).entries) := by
  have listed := AList.mem_lookup_iff.mp found
  obtain ⟨value', front, back, missing, split, rest⟩ :=
    List.exists_of_kerase (List.mem_keys_of_mem listed)
  have same : value' = value := by
    have found' : table.lookup key = some value' :=
      AList.mem_lookup_iff.mpr (split ▸ List.mem_append_right _ List.mem_cons_self)
    rw [found] at found'
    exact (Option.some.inj found').symm
  change table.entries.Perm (⟨key, value⟩ :: List.kerase key table.entries)
  rw [rest, ← same]
  conv_lhs => rw [split]
  exact List.perm_middle

theorem size_modify (key : κ) (f : α → α) (table : Table κ α) :
    (table.modify key f).size = table.size := by
  cases found : table.lookup key with
  | some value =>
    rw [modify_of_some found, size, size, (entries_perm found).length_eq, AList.entries_insert]
    rfl
  | none => rw [modify_of_none found]

theorem count_modify {p : α → Bool} (kept : ∀ value, p (f value) = p value) (key : κ)
    (table : Table κ α) : (table.modify key f).count p = table.count p := by
  cases found : table.lookup key with
  | some value =>
    rw [modify_of_some found, count, count, (entries_perm found).countP_eq, AList.entries_insert]
    simp only [List.countP_cons, kept]
    rfl
  | none => rw [modify_of_none found]

omit [DecidableEq κ] in
theorem size_mapValues (f : κ → α → α) (table : Table κ α) :
    (table.mapValues f).size = table.size := List.length_map _

omit [DecidableEq κ] in
theorem count_mapValues {p : α → Bool} {f : κ → α → α}
    (kept : ∀ key value, p (f key value) = p value) (table : Table κ α) : (table.mapValues f).count p = table.count p := by
  rw [count, mapValues, List.countP_map, count]
  congr 1
  funext entry
  exact kept entry.1 entry.2

theorem lookup_of_erase (found : AList.lookup other (AList.erase key table) = some value) :
    table.lookup other = some value := by
  by_cases same : other = key
  · rw [same, AList.lookup_erase] at found
    cases found
  · rwa [AList.lookup_erase_ne same] at found

theorem size_erase_le (key : κ) (table : Table κ α) : size (table.erase key) ≤ table.size :=
  (List.kerase_sublist key table.entries).length_le

theorem count_erase_le (p : α → Bool) (key : κ) (table : Table κ α) :
    count p (table.erase key) ≤ table.count p :=
  (List.kerase_sublist key table.entries).countP_le

theorem size_insert_of_notMem (missing : key ∉ table) (value : α) :
    size (table.insert key value) = table.size + 1 := by
  rw [size, AList.entries_insert_of_notMem missing]
  rfl

theorem count_insert_of_notMem (p : α → Bool) (missing : key ∉ table) (value : α) :
    count p (table.insert key value) = table.count p + if p value = true then 1 else 0 := by
  rw [count, AList.entries_insert_of_notMem missing, List.countP_cons]
  rfl

end Table
