import Mathlib.Data.List.Sort
import Mathlib.Order.Basic

/-!
# The first few, kept while scanning

A scan that keeps the first `limit` of what it has seen, in order: each item is
put behind everything kept that does not come after it, and what is then beyond
the limit is let go. That an item was let go does no harm, since whatever had
been put before it would still be before it; so what is kept in the end is the
front of everything, sorted.
-/

namespace Selection

variable {α κ : Type} [LinearOrder κ] (key : α → κ)

/-- In order of key. -/
def Ordered (list : List α) : Prop := list.Pairwise fun first second => key first ≤ key second

/-- The point at which everything kept that does not come after an item ends. -/
def position (item : α) (list : List α) : Nat := list.findIdx (key item < key ·)

/-- One item is seen. -/
def keep (limit : Nat) (kept : List α) (item : α) : List α :=
  if position key item kept < limit then
    (kept.insertIdx (position key item kept) item).take limit
  else kept

/-- What is kept of some items, seen in this order. -/
def select (limit : Nat) (items : List α) : List α := items.foldl (keep key limit) []

/-- An item at its place among all. -/
def place (list : List α) (item : α) : List α := list.insertIdx (position key item list) item

variable {key} {limit : Nat} {item : α} {list items : List α}

theorem position_cons {first : α} :
    position key item (first :: list) =
      if key item < key first then 0 else position key item list + 1 := by
  unfold position
  rw [List.findIdx_cons]
  by_cases after : key item < key first
  · rw [decide_eq_true after, if_pos after]
    rfl
  · rw [decide_eq_false after, if_neg after]
    rfl

theorem position_le : position key item list ≤ list.length := List.findIdx_le_length

/-- In an ordered list the point parts what does not come after the item from
what does. -/
theorem Ordered.parted (ordered : Ordered key list) (item : α) :
    (∀ other ∈ list.take (position key item list), key other ≤ key item) ∧
      ∀ other ∈ list.drop (position key item list), key item < key other := by
  induction list with
  | nil => exact ⟨nofun, nofun⟩
  | cons first list ih =>
    obtain ⟨before, ordered⟩ := List.pairwise_cons.mp ordered
    rw [position_cons]
    by_cases after : key item < key first
    · rw [if_pos after]
      refine ⟨nofun, ?_⟩
      intro other listed
      rcases List.mem_cons.mp listed with rfl | listed
      · exact after
      · exact lt_of_lt_of_le after (before other listed)
    · rw [if_neg after]
      obtain ⟨front, back⟩ := ih ordered
      refine ⟨?_, back⟩
      intro other listed
      rcases List.mem_cons.mp listed with rfl | listed
      · exact not_lt.mp after
      · exact front other listed

theorem place_eq : place key list item =
    list.take (position key item list) ++ item :: list.drop (position key item list) := by
  unfold place
  induction list with
  | nil => rfl
  | cons first list ih =>
    rw [position_cons]
    by_cases after : key item < key first
    · rw [if_pos after]
      rfl
    · rw [if_neg after, List.insertIdx_succ_cons, ih]
      rfl

theorem place_perm : (place key list item).Perm (item :: list) := List.perm_insertIdx _ _ position_le

/-- An item at its place leaves the list in order. -/
theorem Ordered.place (ordered : Ordered key list) (item : α) :
    Ordered key (place key list item) := by
  obtain ⟨front, back⟩ := ordered.parted item
  rw [← List.take_append_drop (position key item list) list] at ordered
  obtain ⟨first, second, across⟩ := List.pairwise_append.mp ordered
  unfold Ordered
  rw [place_eq]
  refine List.pairwise_append.mpr ⟨first, List.pairwise_cons.mpr ⟨?_, second⟩, ?_⟩
  · exact fun other listed => le_of_lt (back other listed)
  · intro other listed next listed'
    rcases List.mem_cons.mp listed' with rfl | listed'
    · exact front other listed
    · exact across other listed next listed'

/-- Keeping the front of a list is placing the item and keeping the front. -/
theorem keep_take : keep key limit (list.take limit) item = (place key list item).take limit := by
  unfold keep place
  induction list generalizing limit with
  | nil =>
    cases limit with
    | zero => rfl
    | succ limit => rfl
  | cons first list ih =>
    cases limit with
    | zero => rfl
    | succ limit =>
      rw [List.take_succ_cons, position_cons, position_cons]
      by_cases after : key item < key first
      · have front : (first :: list.take limit).take limit = (first :: list).take limit := by
          rw [← List.take_succ_cons, List.take_take, Nat.min_eq_left (Nat.le_succ limit)]
        rw [if_pos after, if_pos after, if_pos (Nat.succ_pos limit), List.insertIdx_zero,
          List.insertIdx_zero, List.take_succ_cons, List.take_succ_cons, front]
      · rw [if_neg after, if_neg after, List.insertIdx_succ_cons, List.insertIdx_succ_cons,
          List.take_succ_cons, List.take_succ_cons, ← ih]
        by_cases early : position key item (list.take limit) < limit
        · rw [if_pos early, if_pos (Nat.succ_lt_succ early)]
        · rw [if_neg early, if_neg (by omega)]

/-- So what is kept of some items is the front of all of them, placed. -/
theorem foldl_keep (limit : Nat) (items list : List α) :
    items.foldl (keep key limit) (list.take limit) = (items.foldl (place key) list).take limit := by
  induction items generalizing list with
  | nil => rfl
  | cons item items ih => rw [List.foldl_cons, List.foldl_cons, keep_take, ih]

/-- Items that are placed one after the other end up in order. -/
theorem foldl_place (ordered : Ordered key list) (items : List α) :
    Ordered key (items.foldl (place key) list) ∧
      (items.foldl (place key) list).Perm (items ++ list) := by
  induction items generalizing list with
  | nil => exact ⟨ordered, .refl _⟩
  | cons item items ih =>
    obtain ⟨sorted, same⟩ := ih (ordered.place item)
    refine ⟨sorted, same.trans ?_⟩
    exact (place_perm.append_left items).trans List.perm_middle

/-- **Selection.** Where keys are distinct, what is kept is the front of the
items in order, whatever order they are seen in. -/
theorem select_eq {sorted : List α} (limit : Nat) (distinct : (items.map key).Nodup)
    (ordered : Ordered key sorted) (same : sorted.Perm items) :
    select key limit items = sorted.take limit := by
  have kept := @foldl_keep α κ _ key limit items []
  rw [List.take_nil] at kept
  obtain ⟨ordered', same'⟩ := @foldl_place α κ _ key [] List.Pairwise.nil items
  rw [List.append_nil] at same'
  have only : items.foldl (place key) [] = sorted := by
    refine List.Perm.eq_of_pairwise ?_ ordered' ordered (same'.trans same.symm)
    intro first second listed listed' before after
    exact List.inj_on_of_nodup_map distinct (same'.subset listed) (same.subset listed')
      (le_antisymm before after)
  exact kept.trans (congrArg (List.take limit) only)

end Selection
