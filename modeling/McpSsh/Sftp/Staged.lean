import McpSsh.Bastion.Calls
import McpSsh.Lib.Cut
import McpSsh.Lib.Positional
import McpSsh.Runs.Output

/-!
# Staged replacement

`files/staged.rs`: an upload that writes a file of its own beside the
destination and moves it there with the POSIX rename extension. Each request is
a step, and so is each read of the input; the upload can be cut at any of them.
The peer answers as it likes and may do what it was asked without its answer
arriving.
-/

namespace McpSsh.Sftp

open Interleaving

inductive StatusCode
  | ok
  | eof
  | noSuchFile
  | permissionDenied
  | other
  deriving DecidableEq, Repr

/-- What is asked of the peer: for its SFTP subsystem, and then over it. -/
inductive Request
  | subsystem
  | init
  | limits
  | realpath (path : String)
  | lstat (path : String)
  | openExclusive (path : String)
  | write (handle : String) (offset : Nat) (data : List UInt8)
  | close (handle : String)
  | posixRename (oldpath newpath : String)
  | remove (path : String)
  deriving DecidableEq, Repr

/-- What came of a request. `lost` is everything that answers no question: a
reply of another kind, none in time, a transport that is gone. -/
inductive Reply
  | started
  | status (code : StatusCode)
  | version (extensions : List (String × String))
  | limits (writeLen packetLen : Option Nat)
  | name (files : List String)
  | attrs (symlink : Bool)
  | handle (handle : String)
  | lost
  deriving DecidableEq, Repr

/-- `posix-rename@openssh.com`. -/
def posixRenameExtension : String := "posix-rename@openssh.com"

/-- `russh_sftp::extensions::LIMITS`. -/
def limitsExtension : String := "limits@openssh.com"

/-- The peer's files, and what its open handles name. -/
structure Remote where
  files : String → Option (List UInt8)
  handles : List (String × String)

namespace Remote

/-- What a request does once the peer takes it. -/
def effect (remote : Remote) (reply : Reply) : Request → Remote
  | .subsystem | .init | .limits | .realpath _ | .lstat _ => remote
  | .openExclusive path =>
    { files := Function.update remote.files path (some [])
      handles :=
        match reply with
        | .handle handle => (handle, path) :: remote.handles
        | _ => remote.handles }
  | .write handle offset data =>
    match remote.handles.lookup handle with
    | none => remote
    | some path =>
      { remote with
        files := Function.update remote.files path
          ((remote.files path).map (Positional.writeAt 0 · offset data)) }
  | .close handle => { remote with handles := remote.handles.filter (·.1 ≠ handle) }
  | .posixRename oldpath newpath =>
    match remote.files oldpath with
    | none => remote
    | some content =>
      { remote with
        files := Function.update (Function.update remote.files oldpath none) newpath content }
  | .remove path => { remote with files := Function.update remote.files path none }

end Remote

/-- A status other than OK. -/
def Reply.refuses : Reply → Bool
  | .status code => code ≠ .ok
  | _ => false

/-- An answer that says that the peer did as it was asked. -/
def Request.confirmed : Request → Reply → Bool
  | .openExclusive _, .handle _ => true
  | .write .., .status code | .close _, .status code => code = .ok
  | .posixRename .., .status code | .remove _, .status code => code = .ok
  | _, _ => false

/-- What is assumed of the peer: what it refuses it does not do, what it
confirms it does, and an exclusive creation creates. -/
def Remote.honours (remote : Remote) (request : Request) (took : Bool) (reply : Reply) : Bool :=
  (!reply.refuses || !took) && (!request.confirmed reply || took) &&
    match request with
    | .openExclusive path => !took || (remote.files path).isNone
    | _ => true

/-- A request, with the peer as it was and what came of it. -/
structure Sent where
  request : Request
  before : Remote
  reply : Reply

/-- The peer, what is left of the input, the flag that the supervisor keeps, and
what was sent, last first. -/
structure World where
  remote : Remote
  input : List UInt8
  replacement : Bool
  sent : List Sent

/-- The steps of an upload. A read of the input that fails has no answer, and
one without bytes is its end. -/
inductive Step : Type → Type
  | request (request : Request) : Step Reply
  | read (room : Nat) : Step (Option (List UInt8))
  | store (attempted : Bool) : Step Unit

/-- What a step leaves open: whether the peer takes the request and what comes
back of it; how much of the input arrives, or that it fails. -/
structure Choice where
  took : Bool
  reply : Reply
  more : Nat
  fails : Bool

def World.ask (world : World) (request : Request) (took : Bool) (reply : Reply) : World :=
  { world with
    remote := if took then world.remote.effect reply request else world.remote
    sent := ⟨request, world.remote, reply⟩ :: world.sent }

def Step.run (β : Type) (choice : Choice) : Step β → World → Option (β × World)
  | .request asked, world =>
    if world.remote.honours asked choice.took choice.reply then
      some (choice.reply, world.ask asked choice.took choice.reply)
    else none
  | .read room, world =>
    if choice.fails then some (none, world)
    else
      let length := min (choice.more + 1) room
      some (some (world.input.take length), { world with input := world.input.drop length })
  | .store attempted, world => some ((), { world with replacement := attempted })

abbrev Prog : Type → Type 1 := Program Step

namespace Staged

def ask (request : Request) : Prog Reply := Program.step (.request request)

/-- `failed`, as the category it becomes. -/
def failed : Reply → Failure
  | .status .noSuchFile => .notFound
  | .status .permissionDenied => .permissionDenied
  | _ => .remoteIo

/-- That a path names no symbolic link. -/
def checked (path : String) : Prog (Except Failure Unit) := do
  match ← ask (.lstat path) with
  | .attrs symlink => return if symlink then .error .symbolicLink else .ok ()
  | .status .noSuchFile => return .ok ()
  | reply => return .error (failed reply)

/-- The copying loop. Each pass that goes on has moved the offset, which a
`u64` holds, so the passes do not run out. -/
def copy (handle : String) (chunkBytes : Nat) : Nat → Nat → Prog (Except Failure Unit)
  | 0, _ => return .error .tooLarge
  | passes + 1, offset => do
    match ← Program.step (.read chunkBytes) with
    | none => return .error .remoteIo
    | some [] => return .ok ()
    | some data =>
      match ← ask (.write handle offset data) with
      | .status .ok =>
        if offset + data.length < 2 ^ 64 then copy handle chunkBytes passes (offset + data.length)
        else return .error .tooLarge
      | _ => return .error .remoteIo

/-- The rename, which the supervisor is told of before it is sent. -/
def rename (path stage : RemotePath) : Prog (Except Failure Unit) := do
  Program.step (.store true)
  match ← ask (.posixRename stage.raw path.raw) with
  | .status .ok => return .ok ()
  | .status _ => do
    Program.step (.store false)
    return .error .remoteIo
  | _ => return .error .replacementUnknown

/-- What of a packet is left for data. -/
def payload (handle : String) (chunkBytes : Nat) : Option Nat → Nat
  | none => chunkBytes
  | some packetBytes => min chunkBytes (packetBytes - handle.utf8ByteSize - 25)

/-- From the open stage to the destination. -/
def write (path stage : RemotePath) (handle : String) (chunkBytes : Nat)
    (packetBytes : Option Nat) : Prog (Except Failure Unit) := do
  if payload handle chunkBytes packetBytes = 0 then return .error .unsupportedOperation
  match ← copy handle (payload handle chunkBytes packetBytes) (2 ^ 64) 0 with
  | .error cause => return .error cause
  | .ok () =>
    match ← ask (.close handle) with
    | .status .ok => rename path stage
    | _ => return .error .remoteIo

/-- What is done about the stage when the writing failed. -/
def cleanup (stage : RemotePath) (cause : Failure) : Prog (Except Failure Unit) := do
  if cause = .replacementUnknown then return .error cause
  match ← ask (.remove stage.raw) with
  | .status .ok => return .error cause
  | _ => return .error .stagingCleanupFailed

/-- The stage is created, written and moved. -/
def replace (path stage : RemotePath) (chunkBytes : Nat) (packetBytes : Option Nat) :
    Prog (Except Failure Unit) := do
  match ← ask (.openExclusive stage.raw) with
  | .handle handle =>
    match ← write path stage handle chunkBytes packetBytes with
    | .ok () => return .ok ()
    | .error cause => cleanup stage cause
  | reply => return .error (failed reply)

/-- What the session's limits are, if the peer has any. -/
def limitsOf (extensions : List (String × String)) :
    Prog (Except Failure (Nat × Option Nat)) := do
  if extensions.lookup limitsExtension = some "1" then
    match ← ask .limits with
    | .limits writeLen packetLen =>
      return .ok (match writeLen with
        | none => 64 <<< 10
        | some writeLen => min (64 <<< 10) writeLen, packetLen)
    | _ => return .error .remoteIo
  else return .ok (64 <<< 10, none)

/-- The checks of both paths, and then the replacement. -/
def resolved (path stage : RemotePath) (chunkBytes : Nat) (packetBytes : Option Nat) :
    Prog (Except Failure Unit) := do
  match ← ask (.realpath path.parent) with
  | .name files =>
    if files.head? ≠ some path.parent then return .error .symbolicLink
    match ← checked path.raw with
    | .error cause => return .error cause
    | .ok () =>
      match ← checked stage.raw with
      | .error cause => return .error cause
      | .ok () => replace path stage chunkBytes packetBytes
  | reply => return .error (failed reply)

/-- `staged::upload`. -/
def upload (path stage : RemotePath) : Prog (Except Failure Unit) := do
  match ← ask .subsystem with
  | .started =>
    match ← ask .init with
    | .version extensions =>
      if extensions.lookup posixRenameExtension ≠ some "1" then
        return .error .unsupportedOperation
      match ← limitsOf extensions with
      | .error cause => return .error cause
      | .ok (chunkBytes, packetBytes) => resolved path stage chunkBytes packetBytes
    | _ => return .error .sftpUnavailable
  | _ => return .error .sftpUnavailable

end Staged

end McpSsh.Sftp
