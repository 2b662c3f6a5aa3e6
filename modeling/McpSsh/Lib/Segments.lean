import Mathlib.Data.List.Basic

/-!
# Lists behind separators

A list that is some pieces, each behind a separator, and no piece with one in
it. Such a list is its pieces: splitting it at the separators gives them back,
and what stands before its last separator is the pieces but the last.
-/

namespace Segments

variable {α : Type} {separator : α} {piece last : List α}
  {pieces front : List (List α)}

/-- Each piece behind a separator. -/
def join (separator : α) (pieces : List (List α)) : List α := pieces.flatMap (separator :: ·)

theorem join_append (first second : List (List α)) :
    join separator (first ++ second) = join separator first ++ join separator second :=
  List.flatMap_append

theorem join_singleton : join separator [piece] = separator :: piece := List.flatMap_singleton ..

/-- Pieces behind separators are pieces between them, behind one. -/
theorem join_eq (some' : pieces ≠ []) :
    join separator pieces = separator :: [separator].intercalate pieces := by
  induction pieces with
  | nil => exact absurd rfl some'
  | cons piece pieces ih =>
    cases pieces with
    | nil => rw [join_singleton, List.intercalate_singleton]
    | cons next pieces =>
      have rest : join separator (next :: pieces) =
          separator :: [separator].intercalate (next :: pieces) := ih (List.cons_ne_nil next pieces)
      unfold join at rest ⊢
      rw [List.flatMap_cons, rest, List.intercalate_cons_cons]
      simp

variable [DecidableEq α]

/-- What stands before the last separator. -/
def beforeLast (separator : α) (list : List α) : List α :=
  ((list.reverse.dropWhile (· ≠ separator)).drop 1).reverse

/-- No piece between separators holds one. -/
theorem notMem_of_splitOn {list : List α} (listed : piece ∈ list.splitOn separator) :
    separator ∉ piece := by
  induction list generalizing piece with
  | nil =>
    rw [List.mem_singleton.mp listed]
    exact List.not_mem_nil
  | cons a list ih =>
    rw [List.splitOn_cons_eq_if_modifyHead] at listed
    split at listed
    · rcases List.mem_cons.mp listed with rfl | listed
      · exact List.not_mem_nil
      · exact ih listed
    · next different =>
      cases found : list.splitOn separator with
      | nil => exact absurd found (List.splitOn_ne_nil _ _)
      | cons first rest =>
        rw [found, List.modifyHead_cons] at listed
        have within : ∀ other ∈ first :: rest, separator ∉ other := by
          intro other here
          rw [← found] at here
          exact ih here
        rcases List.mem_cons.mp listed with rfl | listed
        · intro inside
          rcases List.mem_cons.mp inside with rfl | inside
          · exact different (beq_self_eq_true _)
          · exact within first List.mem_cons_self inside
        · exact within piece (List.mem_cons_of_mem first listed)

/-- Any list behind a separator is its pieces. -/
theorem join_splitOn (list : List α) : join separator (list.splitOn separator) = separator :: list := by
  rw [join_eq (List.splitOn_ne_nil _ _), List.intercalate_splitOn]

/-- The pieces are given back by splitting. -/
theorem splitOn_join (some' : pieces ≠ []) (whole : ∀ piece ∈ pieces, separator ∉ piece)
    {list : List α} (joined : separator :: list = join separator pieces) :
    list.splitOn separator = pieces := by
  rw [join_eq some'] at joined
  rw [(List.cons.inj joined).2]
  exact List.splitOn_intercalate separator whole some'

/-- Lists behind separators are told apart by their pieces. -/
theorem join_inj {others : List (List α)} (some' : pieces ≠ []) (some'' : others ≠ [])
    (whole : ∀ piece ∈ pieces, separator ∉ piece) (whole' : ∀ piece ∈ others, separator ∉ piece)
    (same : join separator pieces = join separator others) : pieces = others := by
  have front : join separator pieces = separator :: [separator].intercalate pieces := join_eq some'
  have first := splitOn_join some' whole front.symm
  have second := splitOn_join some'' whole' (front.symm.trans same)
  exact first.symm.trans second

theorem beforeLast_join (whole : separator ∉ last) :
    beforeLast separator (join separator (front ++ [last])) = join separator front := by
  have inside : ∀ a ∈ last.reverse, decide (a ≠ separator) = true := by
    intro a listed
    rw [decide_eq_true_eq]
    rintro rfl
    exact whole (List.mem_reverse.mp listed)
  unfold beforeLast
  rw [join_append, join_singleton, List.reverse_append, List.reverse_cons, List.append_assoc,
    List.dropWhile_append_of_pos inside, List.singleton_append,
    List.dropWhile_cons_of_neg (by simp), List.drop_one, List.tail_cons, List.reverse_reverse]

end Segments
