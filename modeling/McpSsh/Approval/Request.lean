import McpSsh.ApprovalDigest
import McpSsh.Audit.Event

/-!
# Requests, answers and grants

The values that pass between the request store and the record. In the source
each is minted in one place only and its fields are private.
-/

namespace McpSsh

/-- What a human is shown, and what the record keeps. -/
structure Asked where
  operation : ActionKind
  id : RequestId
  session : SessionId
  principal : PrincipalId
  host : HostId
  role : RoleId
  purpose : Purpose
  accessClass : AccessClass
  command : List String
  agentIntent : CommandIntent
  /-- The entry holding the decision this request is about, and its digest. -/
  decided : Nat
  decidedDigest : Digest
  why : String
  askedAt : Nat
  decideBy : Nat
  deriving DecidableEq

/-- `Attribution::about`. -/
def Asked.attribution (asked : Asked) : Attribution :=
  ⟨asked.session, asked.principal, asked.host, asked.role⟩

/-- What asking produced: a request nobody has seen yet, or one already there. -/
inductive Ask
  | new (asked : Asked)
  | pending (asked : Asked)
  deriving DecidableEq

def Ask.asked : Ask → Asked
  | .new asked => asked
  | .pending asked => asked

/-- A human's answer, as the store took it. A proof is kept by the sequence of
the entry it pins. -/
structure Answer where
  asked : Asked
  approver : Approver
  agreed : Bool
  proof : Option Nat
  deriving DecidableEq

/-- Permission to run one command, once, before it expires. -/
structure Grant where
  proof : Option Nat
  request : RequestId
  session : SessionId
  approver : Approver
  action : Digest
  decided : Nat
  decidedDigest : Digest
  deriving DecidableEq

/-- What `record_answer` writes. -/
def Answer.event (answer : Answer) : Event :=
  .answered {
    decided := answer.asked.decided
    request := answer.asked.id
    stated := answer.approver.stated
    agreed := answer.agreed }

/-- What `record_approval` writes. -/
def Grant.event (grant : Grant) : Event :=
  .approved {
    decided := grant.decided
    request := grant.request
    stated := grant.approver.stated }

inductive ApprovalError
  | unknown
  | stillWaiting
  | refused
  | alreadyRedeemed
  | differentAction
  | lapsed
  | unrecorded
  | alreadyDecided
  | unattributed
  | notHeld
  | tooManyWaiting
  deriving DecidableEq, Repr

end McpSsh
