import McpSsh.Text
import McpSsh.Lib.Refusals
import Mathlib.Data.List.ReduceOption

/-!
# Shared credentials

`SharedBearer` of `ingress.rs`: what a trusted peer presents to one surface, its
current value and, while it is rotated, its previous one. Only digests are kept
and compared. The digest is SHA-256; that no two texts share one is assumed where
it is needed, and only there.
-/

namespace McpSsh

open Refusals

/-- `IngressError`, as far as settings can be refused with it. -/
inductive IngressError
  | bearerTooShort (minimum : Nat)
  | bearerNotHeaderSafe
  | bearersIdentical
  | bearersSharedAcrossSurfaces
  | issuerBlank
  | jwksNotHttp
  | jwksUrlUnusable
  deriving DecidableEq, Repr

/-- `MINIMUM_BEARER_BYTES`. -/
def minimumBearerBytes : Nat := 32

/-- `u8::is_ascii_graphic`. -/
def isAsciiGraphicByte (byte : UInt8) : Bool := 0x21 ≤ byte.toNat && byte.toNat ≤ 0x7E

/-- `check_bearer`. -/
def checkBearer (value : String) : Except IngressError Unit := do
  refuse (value.utf8ByteSize < minimumBearerBytes) (.bearerTooShort minimumBearerBytes)
  refuse ((asBytes value).any fun byte => !isAsciiGraphicByte byte) .bearerNotHeaderSafe

structure SharedBearer where
  current : Digest
  previous : Option Digest
  deriving DecidableEq

/-- The values that are given, of those that may be. -/
def given (values : List (Option String)) : List String := values.reduceOption

theorem mem_given {values : List (Option String)} {value : String} :
    value ∈ given values ↔ some value ∈ values :=
  List.reduceOption_mem_iff

section

variable (sha256 : List UInt8 → Digest)

/-- `digest`. -/
def bearerDigest (value : String) : Digest := sha256 (asBytes value)

/-- `SharedBearer::new`. -/
def SharedBearer.new (current : String) (previous : Option String) :
    Except IngressError SharedBearer := do
  checkBearer current
  let previous ← match previous with
    | none => pure none
    | some previous => do
      checkBearer previous
      refuse (previous = current) .bearersIdentical
      pure (some (bearerDigest sha256 previous))
  pure { current := bearerDigest sha256 current, previous }

/-- `SharedBearer::accepts`. -/
def SharedBearer.accepts (bearer : SharedBearer) (presented : List UInt8) : Bool :=
  let presented := sha256 presented
  bearer.current == presented ||
    match bearer.previous with
    | some previous => previous == presented
    | none => false

/-! ## What is accepted -/

variable {sha256} {current : String} {previous : Option String} {bearer : SharedBearer}

/-- A credential keeps the digests of what it was made of. -/
theorem SharedBearer.new_ok (made : SharedBearer.new sha256 current previous = .ok bearer) :
    bearer.current = bearerDigest sha256 current ∧
      bearer.previous = previous.map (bearerDigest sha256) := by
  unfold SharedBearer.new at made
  cases previous with
  | none =>
    simp only [bind_ok, pure_ok] at made
    obtain ⟨_, _, _, rfl, rfl⟩ := made
    exact ⟨rfl, rfl⟩
  | some previous =>
    simp only [bind_ok, pure_ok] at made
    obtain ⟨_, _, _, _, _, _, _, rfl, rfl⟩ := made
    exact ⟨rfl, rfl⟩

/-- **What a credential accepts.** The values it was made of, and nothing else. -/
theorem SharedBearer.accepts_iff (injective : Function.Injective sha256)
    (made : SharedBearer.new sha256 current previous = .ok bearer) {presented : List UInt8} :
    bearer.accepts sha256 presented ↔
      ∃ value ∈ given [some current, previous], asBytes value = presented := by
  obtain ⟨now, before⟩ := SharedBearer.new_ok made
  have same (value : String) :
      (bearerDigest sha256 value == sha256 presented) = true ↔ asBytes value = presented := by
    rw [beq_iff_eq, bearerDigest, injective.eq_iff]
  rw [SharedBearer.accepts, now, before, Bool.or_eq_true, same]
  cases previous with
  | none => simp [given, List.reduceOption]
  | some previous => simp [given, List.reduceOption, same]

end

end McpSsh
