import McpSsh.Action

/-!
# File references

What a caller names a stored file by, and why one is not served.
-/

namespace McpSsh

structure FileDigest where
  algorithm : String
  value : String
  deriving DecidableEq, Repr

/-- What a caller fetches a file by. -/
structure Reference where
  uri : String
  name : Option String
  mimeType : Option String
  size : Option UInt64
  digest : Option FileDigest
  deriving DecidableEq, Repr

/-- A reference to a published file. -/
def Reference.of (file : FileIdentity) : Reference := ⟨file.uri, none, none, some file.bytes, none⟩

inductive TransferError
  | unknown
  | capacity
  | limit
  | integrity
  | origin
  | storage
  deriving DecidableEq, Repr

def TransferError.display : TransferError → String
  | .unknown => "file reference is unavailable"
  | .capacity =>
    "file transfer capacity is exhausted; slots free when an earlier download or output " ++
      "reference has been fetched in full, when an upload using an earlier reference succeeds, " ++
      "or when earlier references expire, normally within five minutes"
  | .limit => "file size or metadata exceeds its configured limit"
  | .integrity => "file size or SHA-256 digest does not match the declared content"
  | .origin =>
    "file transfer origin must be an HTTP(S) origin without credentials, path, query, or fragment"
  | .storage => "file storage is unavailable"

end McpSsh
