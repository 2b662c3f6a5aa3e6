import McpSsh.Text
import Mathlib.Algebra.Group.Nat.Defs

/-!
# Names and times

The newtypes of `lib.rs`, the identifiers this service draws for itself, and
clock readings. A configured or supplied name carries its acceptance. A drawn
identifier is sixteen random bytes in hex in the source; it is kept as the
number those bytes spell, since little but equality is asked of it.
-/

namespace McpSsh

/-- `Millis::MAX`, the last instant a `u64` of milliseconds can name. -/
def maxMillis : Nat := 2 ^ 64 - 1

/-- `u64::saturating_add`, on the natural numbers instants are kept as. -/
def satAdd (a b : Nat) : Nat := min (a + b) maxMillis

theorem satAdd_le_satAdd {a b c d : Nat} (le : a ≤ b) (le' : c ≤ d) : satAdd a c ≤ satAdd b d := by
  simp only [satAdd]
  omega

inductive AccessClass
  | readOnly
  | privileged
  deriving DecidableEq, Repr, Inhabited

/-! ## Supplied names -/

inductive IdError
  | empty (what : String)
  | tooLong (what : String) (max : Nat)
  | charset (what : String)
  | traversal (what : String)
  deriving DecidableEq, Repr

/-- Why `validate` refuses an identifier, if it does. -/
def validate (raw what : String) (max : Nat) : Option IdError :=
  let plain := fun c : Char => c.isAlphanum || c = '-' || c = '_' || c = '.'
  if raw.isEmpty then some (.empty what)
  else if max < raw.utf8ByteSize then some (.tooLong what max)
  else if ¬ raw.toList.all plain then some (.charset what)
  else if (raw.toList.splitOn '.').any List.isEmpty || raw.toList.all (· = '.') then
    some (.traversal what)
  else none

/-- A configured host. -/
structure HostId where
  name : String
  accepted : validate name "host" 253 = none
  deriving DecidableEq

/-- A named privilege level on a host. -/
structure RoleId where
  name : String
  accepted : validate name "role" 64 = none
  deriving DecidableEq

/-- `char::is_control`: Unicode's `Cc`. -/
def isControl (c : Char) : Bool :=
  c.toNat < 0x20 || (0x7F ≤ c.toNat && c.toNat < 0xA0)

/-- Why `PrincipalId::parse` refuses a name, if it does. -/
def PrincipalId.refusal (raw : String) : Option IdError :=
  if raw.isEmpty then some (.empty "principal")
  else if 256 < raw.utf8ByteSize then some (.tooLong "principal" 256)
  else if raw.toList.any isControl then some (.charset "principal")
  else none

/-- Who a request acts on behalf of. -/
structure PrincipalId where
  name : String
  accepted : PrincipalId.refusal name = none
  deriving DecidableEq

/-- Longest purpose accepted. -/
def purposeMax : Nat := 512

inductive PurposeError
  | blank
  | tooLong (max : Nat)
  deriving DecidableEq, Repr

/-- Why `Purpose::parse` refuses a text, if it does. -/
def Purpose.refusal (raw : String) : Option PurposeError :=
  if isBlank raw then some .blank
  else if purposeMax < raw.utf8ByteSize then some (.tooLong purposeMax)
  else none

/-- Why a session was opened, in the operator's words. -/
structure Purpose where
  text : String
  accepted : Purpose.refusal text = none
  deriving DecidableEq

instance : Inhabited HostId := ⟨"host", by decide⟩

instance : Inhabited RoleId := ⟨"role", by decide⟩

instance : Inhabited PrincipalId := ⟨"caller", by decide⟩

instance : Inhabited Purpose := ⟨"diagnose", by decide⟩

/-! ## Drawn identifiers -/

structure SessionId where
  draw : Nat
  deriving DecidableEq, Repr, Inhabited

structure RequestId where
  draw : Nat
  deriving DecidableEq, Repr, Inhabited

structure AgreementId where
  draw : Nat
  deriving DecidableEq, Repr, Inhabited

structure RunId where
  draw : Nat
  deriving DecidableEq, Repr, Inhabited

end McpSsh
