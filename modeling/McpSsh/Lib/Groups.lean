import Mathlib.Data.List.Basic
import Mathlib.Order.Basic
import Mathlib.Order.Lattice

/-!
# Values in groups

Values gathered under keys, in order of keys and each group in order and without
repetition, whatever order and however often they are added. A group is then all
values of its key, so that two values share a group exactly if they share a key.
-/

namespace Groups

variable {κ α : Type} [LinearOrder κ] {key other : κ} {value : α}
  {members values : List α} {groups : List (κ × List α)}

/-! ## Groups in order -/

/-- Groups in order of keys. -/
def Sorted (groups : List (κ × List α)) : Prop := groups.Pairwise fun first second => first.1 < second.1

/-- A key before all keys has no group. -/
theorem lookup_none (before : ∀ entry ∈ groups, key < entry.1) : groups.lookup key = none := by
  rw [List.lookup_eq_none_iff]
  intro entry listed
  exact bne_iff_ne.mpr (before entry listed).ne

/-- In order, an entry is what is found under its key. -/
theorem Sorted.mem_iff {entry : κ × List α} (sorted : Sorted groups) :
    entry ∈ groups ↔ groups.lookup entry.1 = some entry.2 := by
  induction groups with
  | nil => exact iff_of_false List.not_mem_nil nofun
  | cons first rest ih =>
    obtain ⟨after, sorted'⟩ := List.pairwise_cons.mp sorted
    rw [List.lookup_cons]
    by_cases same : entry.1 = first.1
    · rw [beq_iff_eq.mpr same]
      constructor
      · intro listed
        rcases List.mem_cons.mp listed with rfl | listed
        · rfl
        · exact absurd same (after entry listed).ne'
      · intro found
        exact List.mem_cons.mpr (.inl (Prod.ext same (Option.some.inj found).symm))
    · rw [beq_false_of_ne same, ← ih sorted', List.mem_cons]
      exact or_iff_right fun here => same (congrArg Prod.fst here)

/-! ## Adding -/

variable [LinearOrder α]

/-- A value is added to a group. -/
def insertMember (value : α) : List α → List α
  | [] => [value]
  | first :: rest =>
    if value < first then value :: first :: rest
    else if value = first then first :: rest
    else first :: insertMember value rest

/-- A value is added under a key. -/
def add (key : κ) (value : α) : List (κ × List α) → List (κ × List α)
  | [] => [(key, [value])]
  | (first, members) :: rest =>
    if key < first then (key, [value]) :: (first, members) :: rest
    else if key = first then (first, insertMember value members) :: rest
    else (first, members) :: add key value rest

/-- Values in groups, added one after the other. -/
def group (key : α → κ) (values : List α) : List (κ × List α) :=
  values.foldl (fun groups value => add (key value) value groups) []

/-! ## One group -/

theorem mem_insertMember {x : α} : x ∈ insertMember value members ↔ x = value ∨ x ∈ members := by
  induction members with
  | nil => exact List.mem_singleton.trans (or_iff_left List.not_mem_nil).symm
  | cons first rest ih =>
    unfold insertMember
    by_cases before : value < first
    · rw [if_pos before, List.mem_cons]
    rw [if_neg before]
    by_cases same : value = first
    · rw [if_pos same, same, List.mem_cons, or_self_left]
    · rw [if_neg same, List.mem_cons, ih, List.mem_cons, or_left_comm]

theorem insertMember_sorted (sorted : members.Pairwise (· < ·)) :
    (insertMember value members).Pairwise (· < ·) := by
  induction members with
  | nil => exact List.pairwise_singleton ..
  | cons first rest ih =>
    obtain ⟨after, sorted'⟩ := List.pairwise_cons.mp sorted
    unfold insertMember
    by_cases before : value < first
    · rw [if_pos before]
      refine List.pairwise_cons.mpr ⟨?_, sorted⟩
      intro x listed
      rcases List.mem_cons.mp listed with rfl | listed
      · exact before
      · exact before.trans (after x listed)
    rw [if_neg before]
    by_cases same : value = first
    · rw [if_pos same]
      exact sorted
    · rw [if_neg same]
      refine List.pairwise_cons.mpr ⟨?_, ih sorted'⟩
      intro x listed
      rcases mem_insertMember.mp listed with rfl | listed
      · exact lt_of_le_of_ne (not_lt.mp before) (Ne.symm same)
      · exact after x listed

/-! ## A value more -/

theorem mem_add {entry : κ × List α} (listed : entry ∈ add key value groups) :
    entry.1 = key ∨ ∃ old ∈ groups, old.1 = entry.1 := by
  induction groups with
  | nil => exact .inl (congrArg Prod.fst (List.mem_singleton.mp listed))
  | cons first rest ih =>
    unfold add at listed
    split at listed
    · rcases List.mem_cons.mp listed with rfl | listed
      · exact .inl rfl
      · exact .inr ⟨entry, listed, rfl⟩
    split at listed
    · next same =>
      rcases List.mem_cons.mp listed with rfl | listed
      · exact .inl same.symm
      · exact .inr ⟨entry, List.mem_cons_of_mem _ listed, rfl⟩
    · rcases List.mem_cons.mp listed with rfl | listed
      · exact .inr ⟨_, List.mem_cons_self, rfl⟩
      · rcases ih listed with here | ⟨old, listed, same⟩
        · exact .inl here
        · exact .inr ⟨old, List.mem_cons_of_mem _ listed, same⟩

theorem Sorted.add (sorted : Sorted groups) : Sorted (add key value groups) := by
  induction groups with
  | nil => exact List.pairwise_singleton ..
  | cons first rest ih =>
    obtain ⟨after, sorted'⟩ := List.pairwise_cons.mp sorted
    unfold Groups.add
    by_cases before : key < first.1
    · rw [if_pos before]
      refine List.pairwise_cons.mpr ⟨?_, sorted⟩
      intro entry listed
      rcases List.mem_cons.mp listed with rfl | listed
      · exact before
      · exact before.trans (after entry listed)
    rw [if_neg before]
    by_cases same : key = first.1
    · rw [if_pos same]
      exact List.pairwise_cons.mpr ⟨after, sorted'⟩
    · rw [if_neg same]
      refine List.pairwise_cons.mpr ⟨?_, ih sorted'⟩
      intro entry listed
      rcases mem_add listed with here | ⟨old, listed, here⟩
      · rw [here]
        exact lt_of_le_of_ne (not_lt.mp before) (Ne.symm same)
      · rw [← here]
        exact after old listed

/-- Adding a value changes the group of its key and no other. -/
theorem Sorted.lookup_add (sorted : Sorted groups) :
    (Groups.add key value groups).lookup other =
      if other = key then some (insertMember value ((groups.lookup key).getD []))
      else groups.lookup other := by
  induction groups with
  | nil =>
    unfold Groups.add
    by_cases same : other = key
    · rw [if_pos same, same, List.lookup_cons_self]
      rfl
    · rw [if_neg same, List.lookup_cons, beq_false_of_ne same]
  | cons first rest ih =>
    obtain ⟨after, sorted'⟩ := List.pairwise_cons.mp sorted
    unfold Groups.add
    by_cases before : key < first.1
    · have none : (first :: rest).lookup key = none := by
        apply lookup_none
        intro entry listed
        rcases List.mem_cons.mp listed with rfl | listed
        · exact before
        · exact before.trans (after entry listed)
      rw [if_pos before, none]
      by_cases same : other = key
      · rw [if_pos same, same, List.lookup_cons_self]
        rfl
      · rw [if_neg same, List.lookup_cons, beq_false_of_ne same]
    rw [if_neg before]
    by_cases here : key = first.1
    · rw [if_pos here]
      by_cases same : other = key
      · rw [if_pos same, same, here, List.lookup_cons_self, List.lookup_cons_self]
        rfl
      · rw [if_neg same, List.lookup_cons, List.lookup_cons, ← here, beq_false_of_ne same]
    · rw [if_neg here, List.lookup_cons, List.lookup_cons, List.lookup_cons, ih sorted',
        beq_false_of_ne here]
      by_cases same : other = key
      · rw [if_pos same, if_pos same, same, beq_false_of_ne here]
      · rw [if_neg same, if_neg same]

/-! ## Every value in its group -/

/-- Groups of some values by a key. -/
structure Of (key : α → κ) (values : List α) (groups : List (κ × List α)) : Prop where
  sorted : Sorted groups
  members : ∀ {entry}, entry ∈ groups → entry.2.Pairwise (· < ·) ∧ entry.2 ≠ [] ∧
    ∀ value, value ∈ entry.2 ↔ value ∈ values ∧ key value = entry.1
  covers : ∀ value ∈ values, ∃ entry ∈ groups, entry.1 = key value

theorem of_nil (key : α → κ) : Of key [] [] where
  sorted := List.Pairwise.nil
  members listed := absurd listed List.not_mem_nil
  covers _ listed := absurd listed List.not_mem_nil

/-- What is found under a key is every value of it. -/
theorem Of.found {key : α → κ} (of : Of key values groups) (at' : κ) :
    ((groups.lookup at').getD []).Pairwise (· < ·) ∧
      ∀ x, x ∈ (groups.lookup at').getD [] ↔ x ∈ values ∧ key x = at' := by
  cases found : groups.lookup at' with
  | some members =>
    have listed : (at', members) ∈ groups := of.sorted.mem_iff.mpr found
    obtain ⟨ordered, -, only⟩ := of.members listed
    exact ⟨ordered, only⟩
  | none =>
    refine ⟨List.Pairwise.nil, fun x => iff_of_false List.not_mem_nil ?_⟩
    rintro ⟨listed, same⟩
    obtain ⟨entry, held, here⟩ := of.covers x listed
    have there := of.sorted.mem_iff.mp held
    rw [here, same, found] at there
    exact nomatch there

theorem Of.add {key : α → κ} (of : Of key values groups) (value : α) :
    Of key (values ++ [value]) (Groups.add (key value) value groups) := by
  refine ⟨of.sorted.add, ?_, ?_⟩
  · intro entry listed
    rw [of.sorted.add.mem_iff, of.sorted.lookup_add] at listed
    split at listed
    · next same =>
      obtain ⟨ordered, only⟩ := of.found (key value)
      rw [← Option.some.inj listed, same]
      refine ⟨insertMember_sorted ordered, ?_, fun x => ?_⟩
      · exact List.ne_nil_of_mem (mem_insertMember.mpr (.inl rfl))
      · rw [mem_insertMember, only, List.mem_append, List.mem_singleton, or_and_right, or_comm]
        refine or_congr_right (iff_self_and.mpr ?_)
        rintro rfl
        rfl
    · next differs =>
      rw [← of.sorted.mem_iff] at listed
      obtain ⟨ordered, some', only⟩ := of.members listed
      refine ⟨ordered, some', fun x => ?_⟩
      rw [only, List.mem_append, List.mem_singleton, or_and_right]
      refine (or_iff_left ?_).symm
      rintro ⟨rfl, same⟩
      exact differs same.symm
  · intro x listed
    have held {at' : κ} {members : List α}
        (found : (Groups.add (key value) value groups).lookup at' = some members) :
        ∃ entry ∈ Groups.add (key value) value groups, entry.1 = at' :=
      ⟨(at', members), of.sorted.add.mem_iff.mpr found, rfl⟩
    by_cases same : key x = key value
    · rw [same]
      exact held (of.sorted.lookup_add.trans (if_pos rfl))
    · rcases List.mem_append.mp listed with listed | listed
      · obtain ⟨entry, here, at'⟩ := of.covers x listed
        have there := of.sorted.mem_iff.mp here
        rw [at'] at there
        exact held (of.sorted.lookup_add.trans ((if_neg same).trans there))
      · exact absurd (congrArg key (List.mem_singleton.mp listed)) same

/-- **Grouping.** The groups of some values are all of each key's, in order. -/
theorem of_group (key : α → κ) (values : List α) : Of key values (group key values) := by
  have all (later earlier : List α) (groups : List (κ × List α)) (of : Of key earlier groups) :
      Of key (earlier ++ later)
        (later.foldl (fun groups value => Groups.add (key value) value groups) groups) := by
    induction later generalizing earlier groups with
    | nil =>
      rw [List.append_nil]
      exact of
    | cons value later ih =>
      have next := ih (earlier ++ [value]) _ (of.add value)
      rw [List.append_assoc] at next
      exact next
  exact all values [] [] (of_nil key)

end Groups
