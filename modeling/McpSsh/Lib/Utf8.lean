import Mathlib.Data.List.Infix
import Mathlib.Data.List.TakeWhile
import Mathlib.Tactic.Linarith

/-!
# Bytes read as UTF-8

Decoding that never fails: what is no character becomes U+FFFD, one for each
longest beginning of a character that breaks off. A byte below 0x80 is a
character of its own wherever it stands, so looking for an ASCII text in what
was decoded is looking for its bytes.
-/

namespace Utf8

/-- How many bytes a character takes that starts with this one; none starts
with a byte for which this is zero. -/
def width (first : UInt8) : Nat :=
  if first < 0x80 then 1
  else if first < 0xC2 then 0
  else if first < 0xE0 then 2
  else if first < 0xF0 then 3
  else if first < 0xF5 then 4
  else 0

/-- A byte that goes on with a character. -/
def continues (byte : UInt8) : Bool := 0x80 ≤ byte && byte < 0xC0

/-- The second byte of a character. Longer forms of shorter characters,
surrogates and what lies beyond the last character are no characters. -/
def seconds (first byte : UInt8) : Bool :=
  continues byte &&
    if first = 0xE0 then 0xA0 ≤ byte
    else if first = 0xED then byte < 0xA0
    else if first = 0xF0 then 0x90 ≤ byte
    else if first = 0xF4 then byte < 0x90
    else true

/-- The bytes after the first that belong to its character, as far as they are
there. -/
def tail (first : UInt8) : List UInt8 → List UInt8
  | [] => []
  | second :: rest =>
    if 2 ≤ width first && seconds first second then
      second :: (rest.take (width first - 2)).takeWhile continues
    else []

/-- The number the bytes of a character spell. -/
def scalar (first : UInt8) : List UInt8 → Nat
  | [] => first.toNat
  | [b] => (first.toNat - 0xC0) * 64 + (b.toNat - 0x80)
  | [b, c] => ((first.toNat - 0xE0) * 64 + (b.toNat - 0x80)) * 64 + (c.toNat - 0x80)
  | b :: c :: d :: _ =>
    (((first.toNat - 0xF0) * 64 + (b.toNat - 0x80)) * 64 + (c.toNat - 0x80)) * 64 +
      (d.toNat - 0x80)

/-- Whether a whole character starts here. -/
def whole (first : UInt8) (rest : List UInt8) : Bool :=
  (tail first rest).length + 1 = width first

def head (first : UInt8) (rest : List UInt8) : Char :=
  if whole first rest then Char.ofNat (scalar first (tail first rest)) else '\uFFFD'

/-- What is decoded once so many bytes have been passed over. -/
def lossyFrom : Nat → List UInt8 → List Char
  | _, [] => []
  | skip + 1, _ :: rest => lossyFrom skip rest
  | 0, first :: rest => head first rest :: lossyFrom (tail first rest).length rest

/-- `String::from_utf8_lossy`. -/
def lossy (bytes : List UInt8) : List Char := lossyFrom 0 bytes

def validFrom : Nat → List UInt8 → Bool
  | _, [] => true
  | skip + 1, _ :: rest => validFrom skip rest
  | 0, first :: rest => whole first rest && validFrom (tail first rest).length rest

/-- Whether `std::str::from_utf8` takes the bytes. -/
def valid (bytes : List UInt8) : Bool := validFrom 0 bytes

/-! ## ASCII -/

theorem width_ascii {first : UInt8} (ascii : first < 0x80) : width first = 1 := if_pos ascii

theorem tail_cons (first second : UInt8) (rest : List UInt8) :
    tail first (second :: rest) =
      if (2 ≤ width first && seconds first second) = true then
        second :: (rest.take (width first - 2)).takeWhile continues
      else [] := rfl

theorem tail_ascii {first : UInt8} (ascii : first < 0x80) (rest : List UInt8) :
    tail first rest = [] := by
  cases rest with
  | nil => rfl
  | cons second rest => rw [tail_cons, width_ascii ascii, if_neg (by simp)]

theorem head_ascii {first : UInt8} (ascii : first < 0x80) (rest : List UInt8) :
    head first rest = Char.ofNat first.toNat := by
  have all : whole first rest = true := by
    rw [whole, tail_ascii ascii, width_ascii ascii]
    rfl
  rw [head, if_pos all, tail_ascii ascii]
  rfl

theorem lossy_ascii {first : UInt8} (ascii : first < 0x80) (rest : List UInt8) :
    lossy (first :: rest) = Char.ofNat first.toNat :: lossy rest := by
  rw [lossy, lossyFrom, head_ascii ascii, tail_ascii ascii]
  rfl

/-- No byte of a longer character, whole or broken, is below 0x80. -/
theorem tail_high {first : UInt8} {rest : List UInt8} {byte : UInt8}
    (member : byte ∈ tail first rest) : ¬ byte < 0x80 := by
  cases rest with
  | nil => cases member
  | cons second rest =>
    rw [tail_cons] at member
    by_cases good : (2 ≤ width first && seconds first second) = true
    · rw [if_pos good] at member
      simp only [seconds, continues, Bool.and_eq_true, decide_eq_true_eq] at good
      rcases List.mem_cons.mp member with rfl | later
      · exact UInt8.not_lt.mpr good.2.1.1
      · have goes := List.mem_takeWhile_imp later
        simp only [continues, Bool.and_eq_true, decide_eq_true_eq] at goes
        exact UInt8.not_lt.mpr goes.1
    · rw [if_neg good] at member
      cases member

theorem tail_prefix (first : UInt8) (rest : List UInt8) : tail first rest <+: rest := by
  cases rest with
  | nil => exact List.nil_prefix
  | cons second rest =>
    rw [tail_cons]
    by_cases good : (2 ≤ width first && seconds first second) = true
    · rw [if_pos good]
      exact List.cons_prefix_cons.mpr
        ⟨rfl, (List.takeWhile_prefix _).trans (List.take_prefix _ _)⟩
    · rw [if_neg good]
      exact List.nil_prefix

/-- The number of the character that has a number. -/
theorem toNat_ofNat {n : Nat} (scalar : n.isValidChar) : (Char.ofNat n).toNat = n := by
  unfold Char.ofNat
  rw [dif_pos scalar]
  rfl

/-- An ASCII byte is the character of its number. -/
theorem toNat_ascii {byte : UInt8} (ascii : byte < 0x80) :
    (Char.ofNat byte.toNat).toNat = byte.toNat := by
  have small : byte.toNat < 0x80 := ascii
  exact toNat_ofNat (.inl (by omega))

theorem continues_iff (byte : UInt8) :
    continues byte = true ↔ 0x80 ≤ byte.toNat ∧ byte.toNat < 0xC0 := by
  simp [continues, UInt8.le_iff_toNat_le, UInt8.lt_iff_toNat_lt]

/-- The bytes of a character after its first. -/
theorem tail_parts {first second : UInt8} {rest more : List UInt8}
    (parts : tail first rest = second :: more) :
    seconds first second = true ∧ ∀ byte ∈ more, continues byte = true := by
  cases rest with
  | nil => cases parts
  | cons next rest =>
    rw [tail_cons] at parts
    by_cases good : (2 ≤ width first && seconds first next) = true
    · rw [if_pos good] at parts
      cases parts
      simp only [Bool.and_eq_true, decide_eq_true_eq] at good
      exact ⟨good.2, fun byte member => List.mem_takeWhile_imp member⟩
    · rw [if_neg good] at parts
      cases parts

theorem seconds_bounds {first byte : UInt8} (second : seconds first byte = true) :
    (0x80 ≤ byte.toNat ∧ byte.toNat < 0xC0) ∧
      (first.toNat = 0xE0 → 0xA0 ≤ byte.toNat) ∧ (first.toNat = 0xED → byte.toNat < 0xA0) ∧
      (first.toNat = 0xF0 → 0x90 ≤ byte.toNat) ∧ (first.toNat = 0xF4 → byte.toNat < 0x90) := by
  simp only [seconds, Bool.and_eq_true, continues_iff] at second
  obtain ⟨bounds, special⟩ := second
  have same (n : UInt8) (number : first.toNat = n.toNat) : first = n := UInt8.toNat_inj.mp number
  refine ⟨bounds, fun at' => ?_, fun at' => ?_, fun at' => ?_, fun at' => ?_⟩
  · rw [same 0xE0 at', if_pos rfl] at special
    simpa [UInt8.le_iff_toNat_le] using special
  · rw [same 0xED at', if_neg (by decide), if_pos rfl] at special
    simpa [UInt8.lt_iff_toNat_lt] using special
  · rw [same 0xF0 at', if_neg (by decide), if_neg (by decide), if_pos rfl] at special
    simpa [UInt8.le_iff_toNat_le] using special
  · rw [same 0xF4 at', if_neg (by decide), if_neg (by decide), if_neg (by decide),
      if_pos rfl] at special
    simpa [UInt8.lt_iff_toNat_lt] using special

theorem width_bounds (first : UInt8) :
    (width first = 1 → first.toNat < 0x80) ∧
      (width first = 2 → 0xC2 ≤ first.toNat ∧ first.toNat < 0xE0) ∧
      (width first = 3 → 0xE0 ≤ first.toNat ∧ first.toNat < 0xF0) ∧
      (width first = 4 → 0xF0 ≤ first.toNat ∧ first.toNat < 0xF5) ∧ width first ≤ 4 := by
  unfold width
  simp only [UInt8.lt_iff_toNat_lt, UInt8.reduceToNat]
  split_ifs <;> simp <;> omega

/-! What two, three and four bytes spell is the number of a character, and not
ASCII. -/

section

variable {a b c d : Nat} (second : 0x80 ≤ b ∧ b < 0xC0) (third : 0x80 ≤ c ∧ c < 0xC0)
  (fourth : 0x80 ≤ d ∧ d < 0xC0)

include second

theorem two_bytes (first : 0xC2 ≤ a ∧ a < 0xE0) :
    0x80 ≤ (a - 0xC0) * 64 + (b - 0x80) ∧ ((a - 0xC0) * 64 + (b - 0x80)).isValidChar := by
  unfold Nat.isValidChar
  omega

include third

theorem three_bytes (first : 0xE0 ≤ a ∧ a < 0xF0) (long : a = 0xE0 → 0xA0 ≤ b)
    (surrogate : a = 0xED → b < 0xA0) :
    0x80 ≤ ((a - 0xE0) * 64 + (b - 0x80)) * 64 + (c - 0x80) ∧
      (((a - 0xE0) * 64 + (b - 0x80)) * 64 + (c - 0x80)).isValidChar := by
  unfold Nat.isValidChar
  omega

include fourth

theorem four_bytes (first : 0xF0 ≤ a ∧ a < 0xF5) (long : a = 0xF0 → 0x90 ≤ b)
    (last : a = 0xF4 → b < 0x90) :
    0x80 ≤ (((a - 0xF0) * 64 + (b - 0x80)) * 64 + (c - 0x80)) * 64 + (d - 0x80) ∧
      ((((a - 0xF0) * 64 + (b - 0x80)) * 64 + (c - 0x80)) * 64 + (d - 0x80)).isValidChar := by
  unfold Nat.isValidChar
  omega

end

theorem scalar_bounds {first second : UInt8} {more : List UInt8}
    (size : more.length + 2 = width first) (second' : seconds first second = true)
    (more' : ∀ byte ∈ more, continues byte = true) :
    0x80 ≤ scalar first (second :: more) ∧ (scalar first (second :: more)).isValidChar := by
  obtain ⟨bounds, long, surrogate, longest, last⟩ := seconds_bounds second'
  obtain ⟨-, two, three, four, most⟩ := width_bounds first
  rw [← size] at two three four most
  have later (byte : UInt8) (member : byte ∈ more) := (continues_iff byte).mp (more' byte member)
  cases more with
  | nil => exact two_bytes bounds (two rfl)
  | cons third more =>
    cases more with
    | nil => exact three_bytes bounds (later third (by simp)) (three rfl) long surrogate
    | cons fourth more =>
      cases more with
      | nil =>
        exact four_bytes bounds (later third (by simp)) (later fourth (by simp)) (four rfl)
          longest last
      | cons fifth more =>
        simp only [List.length_cons] at most
        omega

theorem scalar_high {first : UInt8} {rest : List UInt8} (high : ¬ first < 0x80)
    (all : whole first rest = true) :
    0x80 ≤ scalar first (tail first rest) ∧ (scalar first (tail first rest)).isValidChar := by
  simp only [whole, decide_eq_true_eq] at all
  cases parts : tail first rest with
  | nil =>
    rw [parts] at all
    exact absurd ((width_bounds first).1 all.symm) high
  | cons second more =>
    rw [parts, List.length_cons] at all
    obtain ⟨second', more'⟩ := tail_parts parts
    exact scalar_bounds all second' more'

/-- What a longer character spells, or what stands for a broken one, is not
ASCII. -/
theorem head_high {first : UInt8} (high : ¬ first < 0x80) (rest : List UInt8) :
    0x80 ≤ (head first rest).toNat := by
  unfold head
  by_cases all : whole first rest = true
  · rw [if_pos all]
    obtain ⟨above, valid⟩ := scalar_high high all
    rw [toNat_ofNat valid]
    exact above
  · rw [if_neg all]
    decide

theorem lossyFrom_drop (skip : Nat) (bytes : List UInt8) :
    lossyFrom skip bytes = lossy (bytes.drop skip) := by
  induction bytes generalizing skip with
  | nil => cases skip <;> rfl
  | cons first rest ih =>
    cases skip with
    | zero => rfl
    | succ skip => exact ih skip

theorem lossy_cons (first : UInt8) (rest : List UInt8) :
    lossy (first :: rest) = head first rest :: lossy (rest.drop (tail first rest).length) := by
  rw [lossy, lossyFrom, lossyFrom_drop]

/-! ## Looking for an ASCII text -/

variable {needle : List UInt8}

/-- An ASCII text at the front of what was decoded is at the front of the
bytes. -/
theorem prefix_lossy (ascii : ∀ byte ∈ needle, byte < 0x80) (bytes : List UInt8) :
    needle.map (fun byte => Char.ofNat byte.toNat) <+: lossy bytes ↔ needle <+: bytes := by
  induction needle generalizing bytes with
  | nil => simp
  | cons byte needle ih =>
    have mine := ascii byte List.mem_cons_self
    cases bytes with
    | nil => simp [lossy, lossyFrom]
    | cons first rest =>
      rw [List.map_cons, List.cons_prefix_cons]
      by_cases low : first < 0x80
      · rw [lossy_ascii low, List.cons_prefix_cons,
          ih (fun other member => ascii other (List.mem_cons_of_mem _ member))]
        refine and_congr_left fun _ => ⟨fun same => ?_, fun same => by rw [same]⟩
        have numbers := congrArg Char.toNat same
        rw [toNat_ascii mine, toNat_ascii low] at numbers
        exact UInt8.toNat_inj.mp numbers
      · rw [lossy_cons, List.cons_prefix_cons]
        refine iff_of_false (fun same => ?_) fun same => low (same.1 ▸ mine)
        have above := head_high low rest
        rw [← same.1, toNat_ascii mine] at above
        exact absurd mine (UInt8.not_lt.mpr above)

/-- No ASCII text starts with a byte of another character. -/
theorem infix_cons_of_high (ascii : ∀ byte ∈ needle, byte < 0x80) (some' : needle ≠ [])
    {first : UInt8} (high : ¬ first < 0x80) (rest : List UInt8) :
    needle <:+: first :: rest ↔ needle <:+: rest := by
  rw [List.infix_cons_iff]
  refine or_iff_right fun front => ?_
  obtain ⟨byte, needle, rfl⟩ := List.exists_cons_of_ne_nil some'
  obtain ⟨rfl, -⟩ := List.cons_prefix_cons.mp front
  exact high (ascii byte List.mem_cons_self)

theorem infix_append_of_high (ascii : ∀ byte ∈ needle, byte < 0x80) (some' : needle ≠ [])
    {front : List UInt8} (high : ∀ byte ∈ front, ¬ byte < 0x80) (rest : List UInt8) :
    needle <:+: front ++ rest ↔ needle <:+: rest := by
  induction front with
  | nil => rfl
  | cons first front ih =>
    rw [List.cons_append, infix_cons_of_high ascii some' (high first List.mem_cons_self),
      ih fun byte member => high byte (List.mem_cons_of_mem _ member)]

/-- An ASCII text is in what was decoded exactly if its bytes are in the
bytes. -/
theorem infix_lossy (ascii : ∀ byte ∈ needle, byte < 0x80) (some' : needle ≠ [])
    (bytes : List UInt8) :
    needle.map (fun byte => Char.ofNat byte.toNat) <:+: lossy bytes ↔ needle <:+: bytes := by
  generalize size : bytes.length = length
  induction length using Nat.strong_induction_on generalizing bytes with
  | h length ih =>
    subst size
    cases bytes with
    | nil => simp [lossy, lossyFrom]
    | cons first rest =>
      by_cases low : first < 0x80
      · rw [lossy_ascii low, List.infix_cons_iff, ← lossy_ascii low, prefix_lossy ascii,
          ih rest.length (by simp) rest rfl, ← List.infix_cons_iff]
      · obtain ⟨later, split⟩ := tail_prefix first rest
        have dropped : rest.drop (tail first rest).length = later := by
          have cut := congrArg (List.drop (tail first rest).length) split
          rwa [List.drop_left, eq_comm] at cut
        have shorter : later.length < (first :: rest).length := by
          rw [← dropped, List.length_drop, List.length_cons]
          omega
        rw [lossy_cons, List.infix_cons_iff, ← lossy_cons, prefix_lossy ascii, dropped,
          ih _ shorter later rfl, infix_cons_of_high ascii some' low]
        conv_rhs => rw [← split]
        rw [infix_append_of_high ascii some' fun byte => tail_high]
        refine or_iff_right fun front => ?_
        obtain ⟨byte, needle, rfl⟩ := List.exists_cons_of_ne_nil some'
        obtain ⟨rfl, -⟩ := List.cons_prefix_cons.mp front
        exact low (ascii byte List.mem_cons_self)

end Utf8
