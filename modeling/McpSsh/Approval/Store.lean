import McpSsh.Audit.Ledger

/-!
# The approval store

`approval.rs`: requests in flight and standing agreements. A function here is
what one critical section does to the list a lock protects, given the clock
reading taken under that lock. `ask_with` and `redeem_action_with` hold the
lock across a callback that records the agreement, so each is split there:
`ask` and `redeem` look, and `spend` is what follows a callback that succeeded.

Iteration order of the source's maps is the order of these lists.
-/

namespace McpSsh.Approvals

inductive State
  | waiting
  | approved (by_ : Approver) (recorded : Bool)
  | refused (by_ : Approver)
  | redeemed
  deriving DecidableEq

/-- A request in flight. -/
structure Held where
  proof : Option Nat
  asked : Asked
  action : Digest
  state : State
  redeemBy : Nat
  deriving DecidableEq

/-- How long requests and approvals live. -/
structure Windows where
  decideWithin : Nat
  redeemWithin : Nat
  deriving DecidableEq, Repr

/-- What one standing agreement may answer. -/
inductive StandingCoverage
  | session
  deriving DecidableEq, Repr

/-- A human's standing agreement for one session, as the store keeps it. -/
structure StandingApproval where
  id : AgreementId
  session : SessionId
  who : String
  until_ : Nat
  coverage : StandingCoverage
  deriving DecidableEq

/-- The approver a standing agreement answers as. -/
def StandingApproval.approver (agreement : StandingApproval) : Approver :=
  .sessionStanding agreement.who agreement.id

/-- Where a command stands with the humans. -/
inductive Standing (ρ : Type)
  | ready (ready : ρ)
  | waiting (ask : Ask)
  | lapsed (ask : Ask) (by_ : Approver)
  | refused (by_ : Approver)

def Standing.map {ρ σ : Type} (f : ρ → σ) : Standing ρ → Standing σ
  | .ready value => .ready (f value)
  | .waiting ask => .waiting ask
  | .lapsed ask by_ => .lapsed ask by_
  | .refused by_ => .refused by_

namespace State

def isWaiting : State → Bool
  | .waiting => true
  | _ => false

/-- Who agreed, once the answer is in the record. -/
def collectableBy : State → Option Approver
  | .approved by_ true => some by_
  | _ => none

/-- Agreed to, and the answer has not crossed the recording boundary. -/
def isUnrecorded : State → Bool
  | .approved _ false => true
  | _ => false

def isRedeemed : State → Bool
  | .redeemed => true
  | _ => false

/-- Who agreed, recorded or not. -/
def agreedBy : State → Option Approver
  | .approved by_ _ => some by_
  | _ => none

def refusedBy : State → Option Approver
  | .refused by_ => some by_
  | _ => none

end State

namespace Held

/-- Whether nothing further can happen to this request. A refusal and a
recorded agreement go only with their session. -/
def forgettable (held : Held) (now : Nat) : Bool :=
  match held.state with
  | .waiting => held.asked.decideBy ≤ now
  | .approved _ true => false
  | .approved _ false => held.redeemBy ≤ now
  | .refused _ => false
  | .redeemed => true

/-- Raised in this session for this action. -/
def isAbout (held : Held) (session : SessionId) (action : Digest) : Bool :=
  held.asked.session = session && held.action = action

/-- Raised in this session by its principal for this action. -/
def isFor (held : Held) (session : Session) (action : Digest) : Bool :=
  held.isAbout session.id action && held.asked.principal = session.principal

/-- The grant an agreed request yields. -/
def grant (held : Held) (approver : Approver) : Grant where
  proof := held.proof
  request := held.asked.id
  session := held.asked.session
  approver := approver
  action := held.action
  decided := held.asked.decided
  decidedDigest := held.asked.decidedDigest

end Held

/-- Requests by identifier, in iteration order. -/
abbrev Requests : Type := List Held

namespace Requests

def find (requests : Requests) (id : RequestId) : Option Held :=
  requests.find? (·.asked.id = id)

def update (requests : Requests) (id : RequestId) (change : Held → Held) : Requests :=
  requests.map (fun held => if held.asked.id = id then change held else held)

/-- What every ask starts with: dropping what nothing can happen to. -/
def retain (requests : Requests) (now : Nat) : Requests :=
  requests.filter (fun held => !held.forgettable now)

/-- The requests of a session still waiting on a human. -/
def waitingOf (requests : Requests) (session : SessionId) : Requests :=
  requests.filter (fun held => held.asked.session = session && held.state.isWaiting)

/-- A recorded agreement that outlived its window, and who gave it. -/
def lapsed (requests : Requests) (now : Nat) (session : Session) (action : Digest) :
    Option (RequestId × Approver) :=
  requests.findSome? (fun held =>
    if held.isFor session action && held.redeemBy ≤ now then
      held.state.collectableBy.map (held.asked.id, ·)
    else none)

/-- The grant of an agreement that can be collected. -/
def agreed (requests : Requests) (now : Nat) (session : Session) (action : Digest) :
    Option Grant :=
  requests.findSome? (fun held =>
    if held.isFor session action && now < held.redeemBy then held.state.collectableBy.map held.grant
    else none)

/-- Who said no to this action in this session. -/
def refused (requests : Requests) (session : SessionId) (action : Digest) : Option Approver :=
  requests.findSome? (fun held =>
    if held.isAbout session action then held.state.refusedBy else none)

/-- A request nobody has answered on the record yet. -/
def existing (requests : Requests) (session : SessionId) (action : Digest) : Option Held :=
  requests.find? (fun held =>
    held.isAbout session action && (held.state.isWaiting || held.state.isUnrecorded))

/-- What is left once a callback has recorded the agreement. -/
def spend (requests : Requests) (id : RequestId) : Requests :=
  requests.update id (fun held => { held with state := .redeemed, proof := none })

end Requests

/-- What the store is configured with, and the hash it identifies actions by. -/
structure Config where
  windows : Windows
  waitingPerSession : Nat
  sha256 : List UInt8 → Digest

/-- What an ask finds: an agreement to collect under the lock, or the answer. -/
inductive Asking
  | collect (grant : Grant)
  | answered (standing : Except ApprovalError (Standing Empty))

namespace Config
variable (config : Config)

/-- The request an ask raises. -/
def raise (now : Nat) (fresh : RequestId) (intended : Intended) : Asked :=
  let session := intended.decision.session
  { operation := intended.decision.action.kind
    id := fresh
    session := session.id
    principal := session.principal
    host := session.host
    role := session.role
    purpose := session.purpose
    accessClass := session.accessClass
    command := intended.decision.action.command.argv
    agentIntent := intended.agentIntent
    decided := intended.entry.sequence
    decidedDigest := intended.entry.digest
    why := intended.decision.explanation
    askedAt := now
    decideBy := satAdd now config.windows.decideWithin }

/-- The digest an ask looks requests up by. -/
def actionOf (intended : Intended) : Digest :=
  digestAction config.sha256 intended.decision.action intended.agentIntent

/-- The critical section of `ask_with`, up to its callback. -/
def ask (now : Nat) (fresh : RequestId) (intended : Intended) (requests : Requests) :
    Asking × Requests :=
  let session := intended.decision.session
  let action := config.actionOf intended
  let requests := requests.retain now
  match requests.agreed now session action with
  | some grant => (.collect grant, requests)
  | none =>
    match requests.refused session.id action with
    | some by_ => (.answered (.ok (.refused by_)), requests)
    | none =>
      match requests.existing session.id action with
      | some held => (.answered (.ok (.waiting (.pending held.asked))), requests)
      | none =>
        if config.waitingPerSession ≤ (requests.waitingOf session.id).length then
          (.answered (.error .tooManyWaiting), requests)
        else
          let asked := config.raise now fresh intended
          let raised := ⟨intended.proof, asked, action, .waiting, 0⟩ :: requests
          match requests.lapsed now session action with
          | some (id, by_) =>
            (.answered (.ok (.lapsed (.new asked) by_)), raised.filter (·.asked.id ≠ id))
          | none => (.answered (.ok (.waiting (.new asked))), raised)

/-- `Approvals::ask_with`. A callback that fails leaves the request as it was. -/
def askWith {ε ρ : Type} (ofError : ApprovalError → ε) (now : Nat) (fresh : RequestId)
    (intended : Intended) (consume : Grant → Except ε ρ) (requests : Requests) :
    Except ε (Standing ρ) × Requests :=
  if intended.decision.verdict ≠ .needsApproval then (.error (ofError .notHeld), requests)
  else
    match config.ask now fresh intended requests with
    | (.answered (.error error), requests) => (.error (ofError error), requests)
    | (.answered (.ok standing), requests) => (.ok (standing.map Empty.elim), requests)
    | (.collect grant, requests) =>
      match consume grant with
      | .error error => (.error error, requests)
      | .ok ready => (.ok (.ready ready), requests.spend grant.request)

/-- A request with an answer applied. An agreement is born unrecorded. -/
def answer (now : Nat) (approver : Approver) (agreed : Bool) (held : Held) : Held :=
  if agreed then { held with
    state := .approved approver false
    redeemBy := satAdd now config.windows.redeemWithin }
  else { held with state := .refused approver, proof := none }

end Config

namespace Requests

/-- The request a decision is about, while it can still be decided. -/
def decidable (requests : Requests) (now : Nat) (id : RequestId) : Except ApprovalError Held :=
  match requests.find id with
  | none => .error .unknown
  | some held =>
    if !held.state.isWaiting then .error .alreadyDecided
    else if held.asked.decideBy ≤ now then .error .lapsed
    else .ok held

/-- The critical section of `redeem_action_with`, up to its callback. -/
def redeem (requests : Requests) (now : Nat) (id : RequestId) (principal : PrincipalId)
    (action : Digest) : Except ApprovalError Grant :=
  match requests.find id with
  | none => .error .unknown
  | some held =>
    if held.asked.principal ≠ principal then .error .unknown
    else
      match held.state with
      | .waiting => .error .stillWaiting
      | .refused _ => .error .refused
      | .redeemed => .error .alreadyRedeemed
      | .approved _ false => .error .unrecorded
      | .approved by_ true =>
        if held.redeemBy ≤ now then .error .lapsed
        else if held.action ≠ action then .error .differentAction
        else .ok (held.grant by_)

/-- `Approvals::mark_recorded`. -/
def markRecorded (requests : Requests) (id : RequestId) : Bool × Requests :=
  match (requests.find id).bind (·.state.agreedBy) with
  | some by_ => (true, requests.update id (fun held => { held with state := .approved by_ true }))
  | none => (false, requests)

/-- The requests half of `Approvals::sweep`. -/
def sweep (requests : Requests) (now : Nat) (lives : SessionId → Bool) : Requests :=
  requests.filter (fun held => !held.forgettable now && lives held.asked.session)

end Requests

namespace Config
variable (config : Config)

/-- `Approvals::decide`. -/
def decide (now : Nat) (id : RequestId) (approver : Approver) (agreed : Bool)
    (redeemable : SessionId → Bool) (requests : Requests) :
    Except ApprovalError Answer × Requests :=
  if !approver.isStated then (.error .unattributed, requests)
  else
    match requests.decidable now id with
    | .error error => (.error error, requests)
    | .ok held =>
      if !redeemable held.asked.session then (.error .lapsed, requests)
      else (.ok ⟨held.asked, approver, agreed, held.proof⟩,
        requests.update id (config.answer now approver agreed))

/-- `Approvals::redeem_action_with`. -/
def redeemActionWith {ε ρ : Type} (ofError : ApprovalError → ε) (now : Nat) (id : RequestId)
    (principal : PrincipalId) (action : Action) (agentIntent : CommandIntent)
    (consume : Grant → Except ε ρ) (requests : Requests) : Except ε ρ × Requests :=
  match requests.redeem now id principal (digestAction config.sha256 action agentIntent) with
  | .error error => (.error (ofError error), requests)
  | .ok grant =>
    match consume grant with
    | .error error => (.error error, requests)
    | .ok ready => (.ok ready, requests.spend id)

end Config

/-! ## Standing agreements -/

/-- Standing agreements by identifier, in iteration order. -/
abbrev Agreements : Type := List StandingApproval

namespace Agreements

/-- The critical section of `grant_standing`. The reading is taken before the
lock. -/
def grant (standing : Agreements) (now : Nat) (agreement : StandingApproval) : Agreements :=
  agreement :: standing.filter (fun existing =>
    now < existing.until_ && existing.session ≠ agreement.session)

/-- `Approvals::revoke_standing`. -/
def revoke (standing : Agreements) (id : AgreementId) : Bool × Agreements :=
  (standing.any (·.id = id), standing.filter (·.id ≠ id))

/-- The agreement `use_standing` answers under. -/
def select (standing : Agreements) (now : Nat) (session : SessionId) : Option StandingApproval :=
  standing.find? (fun agreement => agreement.session = session && now < agreement.until_)

/-- The standing half of `Approvals::sweep`. -/
def sweep (standing : Agreements) (now : Nat) (lives : SessionId → Bool) : Agreements :=
  standing.filter (fun agreement => now < agreement.until_ && lives agreement.session)

end Agreements

end McpSsh.Approvals
