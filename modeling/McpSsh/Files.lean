import McpSsh.Text

/-!
# Remote paths

The path grammar of `files.rs`: absolute, one spelling per object, no NUL. A
`RemotePath` carries its acceptance.
-/

namespace McpSsh

/-- Longest path accepted, in bytes. -/
def pathMax : Nat := 4096

inductive PathError
  | empty
  | tooLong (max : Nat)
  | notAbsolute
  | traversal
  | interiorNul
  | notOneSpelling
  deriving DecidableEq, Repr

/-- The first component, left to right, that is not written the one way. An
empty component is allowed only as the last one of a bare `/`. -/
def componentRefusal (raw : String) : List (List Char) → Option PathError
  | [] => none
  | component :: rest =>
    if component = ['.', '.'] then some .traversal
    else if component = ['.'] then some .notOneSpelling
    else if component = [] ∧ ¬ (rest = [] ∧ raw = "/") then some .notOneSpelling
    else componentRefusal raw rest

/-- Why `RemotePath::parse` refuses a text, if it does. -/
def RemotePath.refusal (raw : String) : Option PathError :=
  if raw.isEmpty then some .empty
  else if pathMax < raw.utf8ByteSize then some (.tooLong pathMax)
  else if raw.toList.head? ≠ some '/' then some .notAbsolute
  else if raw.toList.contains '\x00' then some .interiorNul
  -- The first piece is empty because the path is absolute; `next` drops it.
  else componentRefusal raw (raw.toList.splitOn '/').tail

/-- A path on the target. -/
structure RemotePath where
  raw : String
  accepted : RemotePath.refusal raw = none
  deriving DecidableEq

/-- `RemotePath::parse`. -/
def RemotePath.parse (raw : String) : Except PathError RemotePath :=
  match h : RemotePath.refusal raw with
  | some error => .error error
  | none => .ok ⟨raw, h⟩

theorem RemotePath.ext_raw {p q : RemotePath} (same : p.raw = q.raw) : p = q := by
  cases p; cases q; simp_all

/-- The directory this path names something in: what stands before the last
`/`, or the root. -/
def RemotePath.parent (path : RemotePath) : String :=
  let before := ((path.raw.toList.reverse.dropWhile (· ≠ '/')).drop 1).reverse
  if before = [] then "/" else String.ofList before

/-! ## Inspections -/

inductive InfoOperation
  | stat
  | list
  | checksum
  deriving DecidableEq, Repr

inductive FileKind
  | file
  | directory
  | other
  deriving DecidableEq, Repr

structure Metadata where
  kind : FileKind
  bytes : Option UInt64
  permissions : Option UInt32
  modified : Option UInt32
  deriving DecidableEq, Repr

/-- A listed name, withheld where it has a recognised secret shape. -/
structure DirectoryEntry where
  name : Option String
  metadata : Metadata
  deriving DecidableEq, Repr

/-- What a file inspection reports. -/
inductive FileInfo
  | stat (metadata : Metadata)
  | list (entries : List DirectoryEntry) (truncated : Bool)
  | checksum (bytes : UInt64) (sha256 : String)
  deriving DecidableEq, Repr

end McpSsh
