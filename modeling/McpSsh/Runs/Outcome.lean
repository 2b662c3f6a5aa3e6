import McpSsh.Audit.Ledger

/-!
# Outcomes

What a run came to, as the store that watched it says, and what the record
keeps of it.
-/

namespace McpSsh

/-- A bounded failure category of a transfer. -/
inductive Failure
  | notFound
  | permissionDenied
  | tooLarge
  | symbolicLink
  | sftpUnavailable
  | remoteIo
  | publicationUnavailable
  | timedOut
  | workerStopped
  | cancelled
  | unsupportedOperation
  | replacementUnknown
  | stagingCleanupFailed
  deriving DecidableEq, Repr

def Failure.debug : Failure → String
  | .notFound => "NotFound"
  | .permissionDenied => "PermissionDenied"
  | .tooLarge => "TooLarge"
  | .symbolicLink => "SymbolicLink"
  | .sftpUnavailable => "SftpUnavailable"
  | .remoteIo => "RemoteIo"
  | .publicationUnavailable => "PublicationUnavailable"
  | .timedOut => "TimedOut"
  | .workerStopped => "WorkerStopped"
  | .cancelled => "Cancelled"
  | .unsupportedOperation => "UnsupportedOperation"
  | .replacementUnknown => "ReplacementUnknown"
  | .stagingCleanupFailed => "StagingCleanupFailed"

def Failure.code : Failure → String
  | .notFound => "not_found"
  | .permissionDenied => "permission_denied"
  | .tooLarge => "too_large"
  | .symbolicLink => "symbolic_link"
  | .sftpUnavailable => "sftp_unavailable"
  | .remoteIo => "remote_io"
  | .publicationUnavailable => "publication_unavailable"
  | .timedOut => "timed_out"
  | .workerStopped => "worker_stopped"
  | .cancelled => "cancelled"
  | .unsupportedOperation => "unsupported_operation"
  | .replacementUnknown => "replacement_unknown"
  | .stagingCleanupFailed => "staging_cleanup_failed"

def Failure.message : Failure → String
  | .notFound => "The remote file or directory was not found."
  | .permissionDenied => "The remote account was denied file access."
  | .tooLarge => "The file exceeds the configured transfer size limit."
  | .symbolicLink => "The remote path resolves through a symbolic link."
  | .sftpUnavailable => "The remote SFTP service is unavailable."
  | .remoteIo => "The remote file operation failed."
  | .publicationUnavailable => "The download could not be published to local output storage."
  | .timedOut => "The transfer exceeded its time limit."
  | .workerStopped => "The transfer worker ended unexpectedly."
  | .cancelled => "The transfer was cancelled locally; remote work may be incomplete."
  | .unsupportedOperation => "The SFTP peer does not support the requested operation."
  | .replacementUnknown =>
    "The replacement outcome is unknown; the destination may have been replaced. " ++
      "Investigate before retrying."
  | .stagingCleanupFailed =>
    "The staged operation failed and temporary file removal was not confirmed; inspect both " ++
      "named paths before retrying."

/-- Where an execution has got to. -/
inductive RunState
  | running
  | exited (code : UInt32)
  | ended
  | refused
  | indeterminate
  | transferFailed (cause : Failure) (remoteWriteMayBePartial : Bool)
  deriving DecidableEq, Repr

/-- The derived `Debug` text, which a completion records. -/
def RunState.debug : RunState → String
  | .running => "Running"
  | .exited code => "Exited \x7b code: " ++ toString code.toNat ++ " \x7d"
  | .ended => "Ended"
  | .refused => "Refused"
  | .indeterminate => "Indeterminate"
  | .transferFailed cause partial_ =>
    "TransferFailed \x7b cause: " ++ cause.debug ++ ", remote_write_may_be_partial: " ++
      (if partial_ then "true" else "false") ++ " \x7d"

/-- One output stream, as much of it as was kept. -/
structure Stream where
  text : String
  truncated : Bool
  bytes : UInt64
  matched : Option String
  deriving DecidableEq, Repr

/-- `record_output`. -/
def Stream.recorded (stream : Stream) : Recorded :=
  match stream.matched with
  | some what => .withheld stream.bytes what
  | none => .kept stream.text stream.truncated stream.bytes

/-- A file a transfer moved, and which way it went. -/
inductive Transferred
  | output (file : FileIdentity)
  | source (file : FileIdentity)
  deriving DecidableEq

def Transferred.identity : Transferred → FileIdentity
  | .output file => file
  | .source file => file

/-- What of it is for a caller to fetch: an upload's source never is. -/
def Transferred.produced : Transferred → Option FileIdentity
  | .output file => some file
  | .source _ => none

/-- What a run came to. `proof` is the proof its authorization holds, by the
sequence of its entry, where the record asked about it minted that proof. -/
structure Outcome where
  run : RunId
  authorization : Authorization
  proof : Option Nat
  state : RunState
  stdout : Stream
  stderr : Stream
  file : Option Transferred
  info : Option FileInfo
  deriving DecidableEq

namespace Outcome

/-- `Outcome::still_running`. -/
def stillRunning (outcome : Outcome) : Bool := outcome.state = .running

/-- `Outcome::file`. -/
def producedFile (outcome : Outcome) : Option FileIdentity := outcome.file.bind Transferred.produced

/-- `Outcome::moved_file`. -/
def movedFile (outcome : Outcome) : Option FileIdentity := outcome.file.map Transferred.identity

/-- What `record_outcome` writes. -/
def event (outcome : Outcome) : Event :=
  .completed {
    run := outcome.run
    decided := outcome.authorization.sequence
    state := outcome.state.debug
    stdout := outcome.stdout.recorded
    stderr := outcome.stderr.recorded
    file := outcome.movedFile
    info := outcome.info }

/-- A completion names the entry its outcome was authorized by. -/
theorem decided_of_event {outcome : Outcome} {what : Completed}
    (written : outcome.event = .completed what) :
    what.decided = outcome.authorization.sequence := by
  rw [← Event.completed.inj written]

end Outcome

end McpSsh
