import Mathlib.Data.List.Basic

/-!
# Positional writes

A file as the list of its elements, written at an offset: what was there is
replaced, and a gap before the offset is filled.
-/

namespace Positional

variable {α : Type*} {content data : List α} {fill : α} {offset : Nat}

def writeAt (fill : α) (content : List α) (offset : Nat) (data : List α) : List α :=
  content.take offset ++ List.replicate (offset - content.length) fill ++ data ++
    content.drop (offset + data.length)

/-- A write at the end appends. -/
theorem writeAt_end (fill : α) (content data : List α) :
    writeAt fill content content.length data = content ++ data := by
  rw [writeAt, List.take_length, Nat.sub_self, List.replicate_zero, List.append_nil,
    List.drop_eq_nil_of_le (Nat.le_add_right _ _), List.append_nil]

end Positional
