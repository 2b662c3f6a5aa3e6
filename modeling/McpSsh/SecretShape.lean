import McpSsh.Lib.Overlap
import McpSsh.Lib.Utf8
import McpSsh.Text

/-!
# What output looks like

The texts by which a credential is recognised in what a command printed. They
are ASCII, so it makes no difference whether they are looked for in the bytes of
a stream or in what its bytes decode to.
-/

namespace McpSsh

/-- `SECRET_SHAPES`: a text, and what it is taken for. -/
def secretShapes : List (String × String) :=
  [("-----BEGIN", "a PEM private key block"),
   ("ssh-rsa AAAA", "an SSH public key line"),
   ("ssh-ed25519 AAAA", "an SSH public key line"),
   ("PRIVATE KEY", "private key material"),
   ("aws_secret_access_key", "an AWS credential")]

/-- `LONGEST_SECRET_SHAPE`. -/
def longestSecretShape : Nat := 21

/-- `str::contains`. -/
def contains (text needle : String) : Bool := decide (needle.toList <:+: text.toList)

/-- `secret_shape`. -/
def secretShape (text : String) : Option String :=
  (secretShapes.find? fun shape => contains text shape.1).map (·.2)

/-- `String::from_utf8_lossy`. -/
def fromUtf8Lossy (bytes : List UInt8) : String := String.ofList (Utf8.lossy bytes)

/-- A stream that has the bytes of a shape in it, wherever. -/
def Secret (stream : List UInt8) : Prop := ∃ shape ∈ secretShapes, asBytes shape.1 <:+: stream

theorem secretShapes_ascii :
    ∀ shape ∈ secretShapes, ∀ byte ∈ asBytes shape.1, byte < 0x80 := by
  decide +kernel

theorem secretShapes_toList :
    ∀ shape ∈ secretShapes,
      shape.1.toList = (asBytes shape.1).map fun byte => Char.ofNat byte.toNat := by
  decide +kernel

theorem secretShapes_length :
    ∀ shape ∈ secretShapes,
      asBytes shape.1 ≠ [] ∧ (asBytes shape.1).length ≤ longestSecretShape := by
  decide +kernel

theorem secretShape_isSome (text : String) :
    (secretShape text).isSome = true ↔
      ∃ shape ∈ secretShapes, shape.1.toList <:+: text.toList := by
  rw [secretShape, Option.isSome_map, List.find?_isSome]
  simp only [contains, decide_eq_true_eq]

/-- Decoding neither hides a shape nor makes one up. -/
theorem secretShape_lossy (stream : List UInt8) :
    (secretShape (fromUtf8Lossy stream)).isSome = true ↔ Secret stream := by
  rw [secretShape_isSome, fromUtf8Lossy, String.toList_ofList]
  apply exists_congr
  intro shape
  apply and_congr_right
  intro listed
  rw [secretShapes_toList shape listed]
  exact Utf8.infix_lossy (secretShapes_ascii shape listed) (secretShapes_length shape listed).1
    stream

theorem Secret.not_nil : ¬ Secret [] := by
  rintro ⟨shape, listed, found⟩
  exact (secretShapes_length shape listed).1 (List.infix_nil.mp found)

/-- The longest shape's length of a stream is enough of it to find what the
next piece completes. -/
theorem Secret.append_iff (seen piece : List UInt8) :
    Secret (seen ++ piece) ↔
      Secret seen ∨ Secret (Overlap.lastN longestSecretShape seen ++ piece) := by
  have short (shape : String × String) (listed : shape ∈ secretShapes) :
      (asBytes shape.1).length ≤ longestSecretShape + 1 :=
    Nat.le_succ_of_le (secretShapes_length shape listed).2
  constructor
  · rintro ⟨shape, listed, found⟩
    rcases (Overlap.infix_append_iff (short shape listed)).mp found with before | now
    · exact .inl ⟨shape, listed, before⟩
    · exact .inr ⟨shape, listed, now⟩
  · rintro (⟨shape, listed, before⟩ | ⟨shape, listed, now⟩)
    · exact ⟨shape, listed, (Overlap.infix_append_iff (short shape listed)).mpr (.inl before)⟩
    · exact ⟨shape, listed, (Overlap.infix_append_iff (short shape listed)).mpr (.inr now)⟩

end McpSsh
