import Mathlib.Data.List.Sort
import Mathlib.Order.Basic

/-!
# The newest of many

Entries that carry a time, of which several may carry the same one. A source
hands over the newest so many of them and leaves open which of equally old ones
it leaves out. What is strictly newer than any entry handed over was handed
over too, so a reader that cuts its page at a time, and never within one, loses
nothing. Where no two entries are of one time, the time of the last entry of a
page is cursor enough.
-/

namespace Newest

variable {α κ : Type} [LinearOrder κ] {time : α → κ} {limit : Nat} {all chosen list : List α}

/-- Newest first. -/
def Descending (time : α → κ) (list : List α) : Prop :=
  list.Pairwise fun newer older => time older ≤ time newer

/-- The newest `limit` of all, in any order. -/
structure Of (time : α → κ) (limit : Nat) (all chosen : List α) : Prop where
  counted : chosen.length = min limit all.length
  newest : ∃ rest, (chosen ++ rest).Perm all ∧
    ∀ newer ∈ chosen, ∀ older ∈ rest, time older ≤ time newer

theorem Of.perm {other : List α} (newest : Of time limit all chosen) (same : other.Perm chosen) :
    Of time limit all other := by
  obtain ⟨rest, split, older⟩ := newest.newest
  refine ⟨same.length_eq.trans newest.counted, rest, (same.append_right rest).trans split, ?_⟩
  intro entry listed
  exact older entry (same.subset listed)

theorem Of.subset (newest : Of time limit all chosen) : chosen ⊆ all := by
  obtain ⟨rest, split, -⟩ := newest.newest
  intro entry listed
  exact split.subset (List.mem_append_left rest listed)

/-- No more was handed over of some kind than there is. -/
theorem Of.length_filter_le (newest : Of time limit all chosen) (kind : α → Bool) :
    (chosen.filter kind).length ≤ (all.filter kind).length := by
  obtain ⟨rest, split, -⟩ := newest.newest
  have counted := (split.filter kind).length_eq
  rw [List.filter_append, List.length_append] at counted
  omega

/-- The front of a sorted list is the newest of it. -/
theorem Descending.of_take (sorted : Descending time list) (same : list.Perm all) (limit : Nat) :
    Of time limit all (list.take limit) := by
  refine ⟨?_, list.drop limit, ?_, ?_⟩
  · rw [List.length_take, same.length_eq]
  · rw [List.take_append_drop]
    exact same
  · rw [← List.take_append_drop limit list] at sorted
    exact (List.pairwise_append.mp sorted).2.2

/-- Where fewer were handed over than could have been, there are no more. -/
theorem Of.whole (newest : Of time limit all chosen) (few : chosen.length < limit) :
    chosen.Perm all := by
  obtain ⟨rest, split, -⟩ := newest.newest
  have counted := newest.counted
  have total := split.length_eq
  rw [List.length_append] at total
  have none : rest = [] := List.length_eq_zero_iff.mp (by omega)
  rw [none, List.append_nil] at split
  exact split

/-- Whatever is newer than an entry that was handed over was handed over. -/
theorem Of.above {entry : α} (newest : Of time limit all chosen) (listed : entry ∈ chosen) :
    (chosen.filter (time entry < time ·)).Perm (all.filter (time entry < time ·)) := by
  obtain ⟨rest, split, older⟩ := newest.newest
  have none : rest.filter (time entry < time ·) = [] := by
    rw [List.filter_eq_nil_iff]
    intro left missing
    rw [decide_eq_true_eq]
    exact not_lt.mpr (older entry listed left missing)
  have above := split.filter (time entry < time ·)
  rw [List.filter_append, none, List.append_nil] at above
  exact above

/-- What comes before the first entry of some time is what is newer than it. -/
theorem Descending.take_findIdx (sorted : Descending time list) {entry : α} (listed : entry ∈ list) :
    list.take (list.findIdx (time · = time entry)) = list.filter (time entry < time ·) := by
  induction list with
  | nil => rfl
  | cons first list ih =>
    obtain ⟨newer, sorted⟩ := List.pairwise_cons.mp sorted
    rw [List.findIdx_cons]
    by_cases same : time first = time entry
    · have none : (first :: list).filter (time entry < time ·) = [] := by
        rw [List.filter_eq_nil_iff]
        intro other listed
        rw [decide_eq_true_eq, ← same]
        rcases List.mem_cons.mp listed with rfl | listed
        · exact lt_irrefl _
        · exact not_lt.mpr (newer other listed)
      rw [none, decide_eq_true same]
      rfl
    · have listed : entry ∈ list := by
        rcases List.mem_cons.mp listed with rfl | listed
        · exact absurd rfl same
        · exact listed
      have above : time entry < time first := lt_of_le_of_ne (newer entry listed) (Ne.symm same)
      rw [decide_eq_false same, List.filter_cons_of_pos (by simpa using above), ← ih sorted listed]
      rfl

/-- Where nothing is newer than some entry, all that come before it are as old. -/
theorem Descending.level {entry : α} {position : Nat} (sorted : Descending time list)
    (found : list[position]? = some entry) (top : ∀ other ∈ list, time other ≤ time entry) :
    ∀ other ∈ list.take (position + 1), time other = time entry := by
  intro other listed
  refine le_antisymm (top other (List.mem_of_mem_take listed)) ?_
  obtain ⟨index, at'⟩ := List.mem_iff_getElem?.mp listed
  rw [List.getElem?_take] at at'
  split at at'
  case isFalse => exact nomatch at'
  case isTrue early =>
    rcases Nat.lt_or_eq_of_le (Nat.le_of_lt_succ early) with before | rfl
    · obtain ⟨short, rfl⟩ := List.getElem?_eq_some_iff.mp at'
      obtain ⟨short', rfl⟩ := List.getElem?_eq_some_iff.mp found
      exact List.pairwise_iff_getElem.mp sorted index position short short' before
    · rw [Option.some.inj (at'.symm.trans found)]

/-- A list of the newer and one of the rest. -/
theorem Descending.append {front back : List α} {bound : κ} (newer : Descending time front)
    (older : Descending time back) (above : ∀ entry ∈ front, bound < time entry)
    (below : ∀ entry ∈ back, time entry ≤ bound) : Descending time (front ++ back) := by
  refine List.pairwise_append.mpr ⟨newer, older, ?_⟩
  intro entry listed other listed'
  exact le_of_lt (lt_of_le_of_lt (below other listed') (above entry listed))

/-- All entries are those above a bound and those up to it. -/
theorem split (time : α → κ) (bound : κ) (all : List α) :
    (all.filter (bound < time ·) ++ all.filter (time · ≤ bound)).Perm all := by
  have parts := List.filter_append_perm (bound < time ·) all
  have rest : (fun entry => !decide (bound < time entry)) = (time · ≤ bound) := by
    funext entry
    rw [← decide_not]
    exact decide_eq_decide.mpr not_lt
  rwa [rest] at parts

/-- What is above a lower bound is what is above a higher one and what lies
between them. -/
theorem split_above {lower bound : κ} (ordered : lower ≤ bound) (all : List α) :
    (all.filter (bound < time ·) ++
      (all.filter (time · ≤ bound)).filter (lower < time ·)).Perm (all.filter (lower < time ·)) := by
  have parts := split time bound (all.filter (lower < time ·))
  have front : (all.filter (lower < time ·)).filter (bound < time ·) =
      all.filter (bound < time ·) := by
    rw [List.filter_filter]
    apply List.filter_congr
    intro entry _
    by_cases above : bound < time entry
    · rw [decide_eq_true above, decide_eq_true (lt_of_le_of_lt ordered above), Bool.and_true]
    · rw [decide_eq_false above, Bool.false_and]
  rwa [front, List.filter_comm] at parts

/-! ## Entries of different times -/

/-- Newest first, no two of one time. -/
def Strictly (time : α → κ) (list : List α) : Prop :=
  list.Pairwise fun newer older => time older < time newer

/-- An entry is found by its time. -/
theorem Strictly.inj (strict : Strictly time list) {entry other : α} (listed : entry ∈ list)
    (listed' : other ∈ list) (same : time entry = time other) : entry = other := by
  have distinct : (list.map time).Nodup :=
    List.pairwise_map.mpr (strict.imp fun older => older.ne')
  exact List.inj_on_of_nodup_map distinct listed listed' same

/-- What is older than an entry is what comes after it. -/
theorem Strictly.filter_lt {entry : α} {position : Nat} (strict : Strictly time list)
    (found : list[position]? = some entry) :
    list.filter (time · < time entry) = list.drop (position + 1) := by
  induction list generalizing position with
  | nil => exact nomatch found
  | cons first list ih =>
    obtain ⟨newer, strict⟩ := List.pairwise_cons.mp strict
    cases position with
    | zero =>
      cases found
      rw [List.filter_cons_of_neg (by simp)]
      apply List.filter_eq_self.mpr
      intro other listed
      exact decide_eq_true (newer other listed)
    | succ position =>
      rw [List.getElem?_cons_succ] at found
      have below := newer entry (List.mem_of_getElem? found)
      rw [List.filter_cons_of_neg (by simpa using le_of_lt below), ih strict found]
      rfl

/-- Some of the entries are found again by their times. -/
theorem Strictly.filter_mem {some' : List α} (strict : Strictly time list)
    (part : some'.Sublist list) : list.filter (time · ∈ some'.map time) = some' := by
  induction part with
  | slnil => rfl
  | cons first part ih =>
    obtain ⟨newer, strict⟩ := List.pairwise_cons.mp strict
    rw [List.filter_cons_of_neg, ih strict]
    rw [decide_eq_true_eq]
    intro listed
    obtain ⟨entry, listed, same⟩ := List.mem_map.mp listed
    exact (newer entry (part.subset listed)).ne same
  | cons_cons first part ih =>
    obtain ⟨newer, strict⟩ := List.pairwise_cons.mp strict
    rw [List.map_cons, List.filter_cons_of_pos (by simp)]
    congr 1
    refine (List.filter_congr ?_).trans (ih strict)
    intro entry listed
    apply decide_eq_decide.mpr
    rw [List.mem_cons, or_iff_right (newer entry listed).ne]

end Newest
