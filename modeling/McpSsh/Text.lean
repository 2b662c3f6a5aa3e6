import Mathlib.Data.List.Basic
import Mathlib.Data.List.DropRight

/-!
# Text

What the source asks of a `&str`: its UTF-8 bytes, their number, and what is left
once it is trimmed or loses what it starts with. `char::is_whitespace` is Unicode's
`White_Space` property, which is wider than the set `String.trim` knows, so it
is written out here.
-/

namespace McpSsh

/-- The UTF-8 bytes of a text, as `str::as_bytes` gives them. -/
def asBytes (text : String) : List UInt8 :=
  text.toByteArray.data.toList

@[simp] theorem asBytes_length (text : String) :
    (asBytes text).length = text.utf8ByteSize := by
  simp [asBytes]

/-- UTF-8 loses nothing: the bytes determine the text. -/
theorem asBytes_inj {a b : String} (same : asBytes a = asBytes b) : a = b := by
  apply String.toByteArray_inj.mp
  apply ByteArray.ext
  exact Array.toList_inj.mp same

@[simp] theorem asBytes_append (a b : String) : asBytes (a ++ b) = asBytes a ++ asBytes b := by
  simp [asBytes]

theorem asBytes_push (text : String) (c : Char) :
    asBytes (text.push c) = asBytes text ++ String.utf8EncodeChar c := by
  simp [asBytes, List.utf8Encode_singleton]

/-- A text's bytes are its characters', one after another. -/
theorem asBytes_eq_flatMap (text : String) :
    asBytes text = text.toList.flatMap String.utf8EncodeChar := by
  rw [asBytes, ← String.utf8Encode_toList]
  simp [List.utf8Encode]

/-- A character has at least a byte and at most four. -/
theorem asBytes_bounds (text : String) :
    text.length ≤ (asBytes text).length ∧ (asBytes text).length ≤ 4 * text.length := by
  rw [asBytes_eq_flatMap, ← String.length_toList]
  induction text.toList with
  | nil => exact ⟨Nat.le_refl 0, Nat.le_refl 0⟩
  | cons c chars ih =>
    have one := c.utf8Size_pos
    have four := c.utf8Size_le_four
    rw [List.flatMap_cons, List.length_append, String.length_utf8EncodeChar, List.length_cons]
    omega

/-- A byte below 0x80 stands for itself wherever it stands: it is no part of
a longer encoding. -/
theorem utf8EncodeChar_of_ascii {c : Char} {b : UInt8} (member : b ∈ String.utf8EncodeChar c)
    (ascii : b.toNat < 0x80) : String.utf8EncodeChar c = [b] ∧ c.toNat = b.toNat := by
  unfold String.utf8EncodeChar at member ⊢
  simp only [Char.toNat] at *
  split at member
  · simp_all
    omega
  · exfalso
    split at member
    · simp at member
      rcases member with rfl | rfl <;> simp at ascii <;> omega
    · split at member
      · simp at member
        rcases member with rfl | rfl | rfl <;> simp at ascii <;> omega
      · simp at member
        rcases member with rfl | rfl | rfl | rfl <;> simp at ascii <;> omega

/-- Unicode's `White_Space`, which `str::trim` removes. -/
def isWhitespace (c : Char) : Bool :=
  let n := c.toNat
  (9 ≤ n && n ≤ 13) || n = 32 || n = 0x85 || n = 0xA0 || n = 0x1680
    || (0x2000 ≤ n && n ≤ 0x200A) || n = 0x2028 || n = 0x2029 || n = 0x202F
    || n = 0x205F || n = 0x3000

/-- `text.trim().is_empty()`. -/
def isBlank (text : String) : Bool :=
  text.toList.all isWhitespace

/-- `str::trim`. -/
def trim (text : String) : String :=
  String.ofList ((text.toList.dropWhile isWhitespace).rdropWhile isWhitespace)

/-- `str::strip_prefix`. -/
def stripPrefix (stripped text : String) : Option String :=
  (text.toList.dropPrefix? stripped.toList).map String.ofList

theorem stripPrefix_eq_some {stripped text suffix : String} :
    stripPrefix stripped text = some suffix ↔ text = stripped ++ suffix := by
  rw [stripPrefix, Option.map_eq_some_iff]
  constructor
  · rintro ⟨rest, found, rfl⟩
    obtain ⟨first, split, same⟩ := List.dropPrefix?_eq_some_iff.mp found
    rw [beq_iff_eq] at same
    apply String.toList_injective
    rw [split, same, String.toList_append, String.toList_ofList]
  · rintro rfl
    rw [String.toList_append]
    exact ⟨suffix.toList, List.dropPrefix?_append_of_beq _ (beq_self_eq_true _),
      String.ofList_toList⟩

/-- A lowercase hex digit. -/
def hexDigit (n : Nat) : Char :=
  if n < 10 then Char.ofNat ('0'.toNat + n) else Char.ofNat ('a'.toNat + (n - 10))

/-- Bytes in lowercase hex. -/
def hex (bytes : List UInt8) : String :=
  String.ofList (bytes.flatMap fun byte => [hexDigit (byte.toNat / 16), hexDigit (byte.toNat % 16)])

/-- A digest. The source renders its bytes in lowercase hex; only equality is
asked of one. -/
structure Digest where
  bytes : List UInt8
  deriving DecidableEq, Repr, Inhabited

end McpSsh
