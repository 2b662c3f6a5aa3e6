import Mathlib.Data.List.Basic
import Mathlib.Tactic.Ring

/-!
# Length-prefixed byte fields

A field is framed by its length, written in a fixed number of little-endian
bytes. A sequence of framed fields needs no terminator: read from the left, the
first length says where the first field ends, so two sequences with one
encoding are one sequence (`frames_inj`). The only proviso is that each length
fits its prefix.
-/

namespace PrefixCode

/-- The low `width` bytes of `n`, least significant first. -/
def littleEndian : Nat → Nat → List UInt8
  | 0, _ => []
  | width + 1, n => UInt8.ofNat n :: littleEndian width (n / 256)

@[simp] theorem littleEndian_length (width n : Nat) :
    (littleEndian width n).length = width := by
  induction width generalizing n with
  | zero => rfl
  | succ width ih => simp [littleEndian, ih]

/-- Numbers that fit the width are determined by their bytes. -/
theorem littleEndian_inj {width n m : Nat} (hn : n < 256 ^ width) (hm : m < 256 ^ width)
    (same : littleEndian width n = littleEndian width m) : n = m := by
  induction width generalizing n m with
  | zero => simp at hn hm; omega
  | succ width ih =>
    rw [pow_succ] at hn hm
    simp only [littleEndian, List.cons.injEq] at same
    obtain ⟨low, high⟩ := same
    have lowByte : n % 256 = m % 256 := by
      have := congrArg UInt8.toNat low
      simpa using this
    have rest : n / 256 = m / 256 :=
      ih (by omega) (by omega) high
    omega

section Frames

variable {width : Nat}

/-- A field behind its length. -/
def frame (width : Nat) (field : List UInt8) : List UInt8 :=
  littleEndian width field.length ++ field

/-- Fields one after another, each framed. -/
def frames (width : Nat) (fields : List (List UInt8)) : List UInt8 :=
  fields.flatMap (frame width)

@[simp] theorem frames_nil : frames width [] = [] := rfl

@[simp] theorem frames_cons (field : List UInt8) (rest : List (List UInt8)) :
    frames width (field :: rest) = frame width field ++ frames width rest := rfl

/-- A framed field at the head of a byte string ends where its length says. -/
theorem frame_append_inj {a b s t : List UInt8}
    (ha : a.length < 256 ^ width) (hb : b.length < 256 ^ width)
    (same : frame width a ++ s = frame width b ++ t) : a = b ∧ s = t := by
  simp only [frame, List.append_assoc] at same
  obtain ⟨lengths, rest⟩ := List.append_inj same (by simp)
  have sameLength : a.length = b.length := littleEndian_inj ha hb lengths
  exact List.append_inj rest sameLength

theorem frame_ne_nil (hw : 0 < width) (field : List UInt8) (s : List UInt8) :
    frame width field ++ s ≠ [] := by
  intro nil
  have length := congrArg List.length nil
  simp only [frame, List.length_append, littleEndian_length, List.length_nil] at length
  omega

/-- Framed sequences are uniquely decodable. -/
theorem frames_inj (hw : 0 < width) {as bs : List (List UInt8)}
    (ha : ∀ a ∈ as, a.length < 256 ^ width) (hb : ∀ b ∈ bs, b.length < 256 ^ width)
    (same : frames width as = frames width bs) : as = bs := by
  induction as generalizing bs with
  | nil =>
    cases bs with
    | nil => rfl
    | cons b bs => exact (frame_ne_nil hw b _ same.symm).elim
  | cons a as ih =>
    cases bs with
    | nil => exact (frame_ne_nil hw a _ same).elim
    | cons b bs =>
      obtain ⟨head, tail⟩ :=
        frame_append_inj (ha a (by simp)) (hb b (by simp)) same
      have rest : as = bs :=
        ih (fun x hx => ha x (by simp [hx])) (fun x hx => hb x (by simp [hx])) tail
      rw [head, rest]

end Frames

end PrefixCode
