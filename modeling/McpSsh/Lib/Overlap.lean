import Mathlib.Data.List.Infix

/-!
# Looking for a short text in a stream

A stream that arrives in pieces is searched piece by piece. What has to be
carried from one search to the next is as much of the end as the text is long,
short of one symbol: an occurrence that the next piece completes starts there.
-/

namespace Overlap

variable {α : Type} {needle seen piece : List α} {keep : Nat}

/-- The last so many of a list. -/
def lastN (keep : Nat) (list : List α) : List α := list.drop (list.length - keep)

theorem lastN_suffix (keep : Nat) (list : List α) : lastN keep list <:+ list :=
  List.drop_suffix _ _

theorem lastN_length (keep : Nat) (list : List α) :
    (lastN keep list).length = min keep list.length := by
  rw [lastN, List.length_drop]
  omega

/-- What is kept of a stream is kept of what was kept and what came since. -/
theorem lastN_append (keep : Nat) (seen piece : List α) :
    lastN keep (lastN keep seen ++ piece) = lastN keep (seen ++ piece) := by
  rcases Nat.le_total seen.length keep with all | more
  · rw [show lastN keep seen = seen by rw [lastN, Nat.sub_eq_zero_of_le all, List.drop_zero]]
  · have kept : (lastN keep seen).length = keep := by
      rw [lastN_length]
      omega
    obtain ⟨gone, split⟩ := lastN_suffix keep seen
    have length : seen.length = gone.length + keep := by
      rw [← kept, ← List.length_append, split]
    calc lastN keep (lastN keep seen ++ piece)
        = (lastN keep seen ++ piece).drop piece.length := by
          rw [lastN, List.length_append, kept, Nat.add_sub_cancel_left]
      _ = (gone ++ (lastN keep seen ++ piece)).drop (gone.length + piece.length) := by
          rw [← List.drop_drop, List.drop_left]
      _ = lastN keep (seen ++ piece) := by
          rw [← List.append_assoc, split, lastN, List.length_append, length]
          congr 1
          omega

/-- An occurrence in the stream so far lies in what was seen before, or in what
was kept of that and the new piece. -/
theorem infix_append_iff (short : needle.length ≤ keep + 1) :
    needle <:+: seen ++ piece ↔ needle <:+: seen ∨ needle <:+: lastN keep seen ++ piece := by
  constructor
  · rintro ⟨before, after, whole⟩
    rcases Nat.lt_or_ge seen.length (before.length + needle.length) with late | early
    · -- It ends in the new piece, so it starts in what was kept.
      right
      refine ⟨before.drop (seen.length - keep), after, ?_⟩
      have cut := congrArg (List.drop (seen.length - keep)) whole
      rwa [List.append_assoc, List.drop_append_of_le_length (by omega),
        List.drop_append_of_le_length (Nat.sub_le _ _), ← List.append_assoc] at cut
    · left
      have cut := congrArg (List.take seen.length) whole
      have fits : (before ++ needle).length ≤ seen.length := by simpa using early
      rw [List.take_left, List.take_append, List.take_of_length_le fits] at cut
      exact ⟨before, _, cut⟩
  · rintro (⟨before, after, rfl⟩ | ⟨before, after, whole⟩)
    · exact ⟨before, after ++ piece, by simp⟩
    · obtain ⟨gone, split⟩ := lastN_suffix keep seen
      refine ⟨gone ++ before, after, ?_⟩
      rw [← split, List.append_assoc gone (lastN keep seen), ← whole]
      simp

end Overlap
