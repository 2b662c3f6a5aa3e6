import McpSsh.Approval.Store
import McpSsh.Registry
import McpSsh.Lib.Interleaving

/-!
# The mediated service

What `Bastion` holds: the stores behind their locks, the connections, the runs,
and the answers its calls give.

`journal` is a history variable. A step appends what it did to it and nothing
reads it back, except that an identifier is never drawn twice. `proofs` lists
the decision proofs a call still holds in a local variable.
-/

namespace McpSsh.Bastion

/-- What a deployment fixes when the service is built. -/
structure Deployment where
  registry : Registry
  review : ReviewMode
  lifetime : Lifetime
  sessionsPerPrincipal : Nat
  windows : Approvals.Windows
  waitingPerSession : Nat
  limits : Ledger.Limits
  format : Format
  genesis : Digest

namespace Deployment

/-- `Bounds::standing_cap`. -/
def standingCap (deployment : Deployment) : Nat := deployment.lifetime.max

/-- What the approval store is built with. -/
def approvals (deployment : Deployment) : Approvals.Config :=
  ⟨deployment.windows, deployment.waitingPerSession, deployment.format.sha256⟩

end Deployment

/-! ## Transports and runs -/

/-- An authenticated connection, labelled by the target it was dialled for. -/
structure Connection where
  id : Nat
  host : HostId
  role : RoleId
  deriving DecidableEq

/-- A `SessionConnection`: the connection a session is using, behind the lock
that gives the right to replace it. `session` is the key it was inserted
under. -/
structure Holder where
  id : Nat
  session : SessionId
  connection : Connection
  deriving DecidableEq

/-- A reader of a completed snapshot, and the identity established for it
before review. -/
structure PreparedUpload where
  identity : FileIdentity
  content : List UInt8
  deriving DecidableEq

/-- What a transfer reads or writes on this side. -/
inductive Payload
  | download
  | fileInfo
  | upload (input : PreparedUpload)
  deriving DecidableEq

/-- A run as it is registered. A command has no payload. -/
structure Run where
  id : RunId
  authorization : Authorization
  operation : Operation
  argv : List String
  connection : Connection
  payload : Option Payload
  deriving DecidableEq

/-! ## Answers -/

inductive RunError
  | wrongTarget (recorded : Nat) (host : HostId) (role : RoleId)
  | wrongOperation
  | stopping
  | channel
  deriving DecidableEq

inductive MediationError
  | invalidStagingPath
  | accountMismatch
  | busy
  | stopping
  | session (error : SessionError)
  | resolve (error : ResolveError)
  | connect
  | command (error : CommandError)
  | audit (error : AuditError)
  | run (error : RunError)
  | tooManySessions (error : TooManySessions)
  | approval (error : ApprovalError)
  | noConnection
  | noReceipt
  deriving DecidableEq

/-- What came of asking to run a command. -/
inductive Executed
  | ran (decision : Decision) (run : RunId) (approvedBy : Option Approver)
  | awaitingApproval (decision : Decision) (asked : Ask)
  | approvalLapsed (decision : Decision) (asked : Ask) (lapsedFrom : Approver)
  | refused (decision : Decision) (refusedBy : Option Approver)

inductive Admission
  | ready (decision : Decision) (receipt : Receipt) (approvedBy : Option Approver)
  | held (executed : Executed)

/-! ## What has happened -/

/-- A standing agreement as it was granted: when, and the session it is about
if that could still be used. -/
structure Granted where
  agreement : Approvals.StandingApproval
  grantedAt : Nat
  live : Option Session
  deriving DecidableEq

/-- What a step did, and the call that took it. A `reading` is the clock as it
was read under the lock. -/
inductive Note
  | opened (tid : Nat) (session : Session)
  | committed (entry : Entry)
  | recorded (tid : Nat) (intended : Intended)
  | raised (tid : Nat) (intended : Intended) (asked : Asked)
  | joined (tid : Nat) (request : RequestId)
  | lapsed (tid : Nat) (request : RequestId) (by_ : Approver)
  | found (tid : Nat) (request : RequestId) (reading : Nat)
  | answered (tid : Nat) (answer : Answer) (redeemBy : Nat)
  | collected (tid : Nat) (intended : Intended) (grant : Grant) (receipt : Receipt)
  | granted (tid : Nat) (what : Granted)
  | selected (tid : Nat) (agreement : Approvals.StandingApproval) (reading : Nat)
  | withdrew (agreement : AgreementId)
  | dialled (tid : Nat) (connection : Connection)
  | placed (tid : Nat) (holder : Nat) (session : SessionId)
  | bound (tid : Nat) (session : SessionId) (connection : Connection)
  | registered (tid : Nat) (session : SessionId) (run : Run)
  deriving DecidableEq

abbrev Journal : Type := List Note

/-- The number an identifier was drawn as, if the step drew one. -/
def Note.drawn : Note → Option Nat
  | .opened _ session => some session.id.draw
  | .raised _ _ asked => some asked.id.draw
  | .granted _ what => some what.agreement.id.draw
  | .dialled _ connection => some connection.id
  | .placed _ holder _ => some holder
  | .registered _ _ run => some run.id.draw
  | _ => none

/-- The entry a step committed, if it did. -/
def Note.entry : Note → Option Entry
  | .committed entry => some entry
  | _ => none

/-- Every entry committed, oldest first. -/
def Journal.entries (journal : Journal) : List Entry := journal.filterMap Note.entry

/-- Nothing has been drawn as this number. -/
def Journal.unused (journal : Journal) (draw : Nat) : Bool :=
  journal.all (fun note => note.drawn ≠ some draw)

/-! ## The state -/

/-- The locks that are held from one step to another. -/
inductive Lock
  | sessions
  | requests
  | standing
  | publishing
  | holder (id : Nat)
  deriving DecidableEq

/-- The session store. `openings` says who reserved each pending slot. -/
structure SessionPart where
  store : Sessions
  openings : List (Nat × PrincipalId)

/-- The request store. `collecting` is the request whose agreement is being
recorded under the lock. -/
structure RequestPart where
  requests : Approvals.Requests
  collecting : Option RequestId

/-- The connections, by session, and their holders. -/
structure LinkPart where
  connections : List (SessionId × Nat)
  holders : List Holder
  closed : List Nat

/-- The holder under a number. -/
def LinkPart.find (part : LinkPart) (holder : Nat) : Option Holder :=
  part.holders.find? (·.id = holder)

/-- The run store. -/
structure RunPart where
  runs : List Run
  stopping : Bool

structure Service where
  clock : Nat
  stopping : Bool
  locks : Lock → Option Nat
  sessions : SessionPart
  approvals : RequestPart
  standing : Approvals.Agreements
  ledger : Ledger.State
  links : LinkPart
  runs : RunPart
  proofs : List (Nat × Nat)
  journal : Journal

/-- `Bastion::new`. -/
def Service.new (deployment : Deployment) (clock : Nat) : Service where
  clock
  stopping := false
  locks := fun _ => none
  sessions := ⟨⟨[], []⟩, []⟩
  approvals := ⟨[], none⟩
  standing := []
  ledger := Ledger.State.new deployment.genesis
  links := ⟨[], [], []⟩
  runs := ⟨[], false⟩
  proofs := []
  journal := []

end McpSsh.Bastion
