import McpSsh.Policy

/-!
# Audit entries

What the record says. Every event a ledger operation can write, with who it is
attributed to and its place in the chain.
-/

namespace McpSsh

/-! ## Who agreed -/

/-- Who answered a request. An override is recorded where a reader already
looks for the approver; a standing agreement answers in the name of whoever
gave it. -/
inductive Approver
  | human (who : String)
  | override (who because : String)
  | sessionStanding (who : String) (agreement : AgreementId)
  deriving DecidableEq

/-- `Approver::is_stated`. -/
def Approver.isStated : Approver → Bool
  | .human who => !isBlank who
  | .override who because => !isBlank who && !isBlank because
  | .sessionStanding who _ => !isBlank who

/-- The agreement an approver answers under, if it is one. -/
def Approver.agreement : Approver → Option AgreementId
  | .sessionStanding _ agreement => some agreement
  | _ => none

/-- How an approval answer was supplied. -/
inductive ApprovalMode
  | direct
  | override
  | session
  deriving DecidableEq, Repr

/-- An approver as an entry names one. -/
structure Stated where
  approver : String
  overrideOf : Option String
  standing : Bool
  mode : ApprovalMode
  agreement : Option AgreementId
  deriving DecidableEq

/-- The match both `record_answer` and `record_approval` make. -/
def Approver.stated : Approver → Stated
  | .human who => ⟨who, none, false, .direct, none⟩
  | .override who because => ⟨who, some because, false, .override, none⟩
  | .sessionStanding who agreement => ⟨who, none, true, .session, some agreement⟩

/-- Only a standing agreement is recorded as one. -/
theorem Approver.stated_session {approver : Approver} {agreement : AgreementId}
    (named : approver.stated.agreement = some agreement) :
    approver = .sessionStanding approver.stated.approver agreement := by
  cases approver <;> simp_all [Approver.stated]

/-! ## Events -/

/-- Output as it was recorded. -/
inductive Recorded
  | kept (text : String) (truncated : Bool) (bytes : UInt64)
  | withheld (bytes : UInt64) (matched : String)
  deriving DecidableEq, Repr

inductive EvaluationVerdict
  | supportsIntent
  | doesNotSupportIntent
  | uncertain
  deriving DecidableEq, Repr

/-- A validated, immutable advisory evaluation. -/
structure EvaluationArtifact where
  evaluationId : String
  decisionDigest : Digest
  evaluator : String
  model : String
  promptVersion : String
  verdict : EvaluationVerdict
  confidence : UInt8
  rationale : String
  sideEffects : List String
  deriving DecidableEq

/-- A command was submitted, and this was decided before any run. -/
structure Decided where
  operation : ActionKind
  agentIntent : String
  argv : List String
  program : String
  accessClass : AccessClass
  purpose : String
  verdict : Verdict
  policies : List String
  deriving DecidableEq

/-- A human agreed to a command policy would not permit on its own. -/
structure Approved where
  decided : Nat
  request : RequestId
  stated : Stated
  deriving DecidableEq

/-- A human answered a request for approval, either way. -/
structure Answered where
  decided : Nat
  request : RequestId
  stated : Stated
  agreed : Bool
  deriving DecidableEq

/-- What a command did. -/
structure Completed where
  run : RunId
  decided : Nat
  state : String
  stdout : Recorded
  stderr : Recorded
  file : Option FileIdentity
  info : Option FileInfo
  deriving DecidableEq

/-- An external, advisory assessment of a recorded decision. -/
structure Evaluated where
  operation : ActionKind
  artifact : EvaluationArtifact
  decided : Nat
  argv : List String
  agentIntent : String
  purpose : String
  accessClass : AccessClass
  deriving DecidableEq

inductive Event
  | sessionOpened (purpose : String) (accessClass : AccessClass)
  | decided (what : Decided)
  | approved (what : Approved)
  | answered (what : Answered)
  | completed (what : Completed)
  | cancellationRequested (run : RunId) (decided : Nat)
  | sessionClosed
  | sessionTerminated (operator : PrincipalId)
  | evaluated (what : Evaluated)
  deriving DecidableEq, Inhabited

/-- Whether an entry of this event is given a proof that its holders keep
alive: it asks for a human, or it is one a run may rest on. -/
def Event.pins : Event → Bool
  | .decided what => what.verdict = .permit || what.verdict = .needsApproval
  | .approved _ => true
  | _ => false

/-- Whether an entry neither decides on a command nor answers a request. -/
def Event.isPlain : Event → Bool
  | .decided _ | .approved _ | .answered _ => false
  | _ => true

/-- Whether an entry accounts for something already recorded: what a run did,
that it was to be cancelled, or what an evaluator made of a decision. -/
def Event.isAccount : Event → Bool
  | .completed _ | .cancellationRequested .. | .evaluated _ => true
  | _ => false

theorem Event.isPlain_of_isAccount {event : Event} (account : event.isAccount = true) :
    event.isPlain = true := by
  cases event <;> first | rfl | cases account

/-- Who an entry is about. -/
structure Attribution where
  session : SessionId
  principal : PrincipalId
  host : HostId
  role : RoleId
  deriving DecidableEq, Inhabited

def Session.attribution (session : Session) : Attribution :=
  ⟨session.id, session.principal, session.host, session.role⟩

/-- One entry, with its place in the chain. -/
structure Entry where
  sequence : Nat
  atMillis : Nat
  who : Attribution
  event : Event
  previous : Digest
  digest : Digest
  deriving DecidableEq, Inhabited

/-- Whether an entry says that its session is over. -/
def Event.isEnd : Event → Bool
  | .sessionClosed | .sessionTerminated _ => true
  | _ => false

/-- Whether an entry says that a session began. -/
def Event.isOpening : Event → Bool
  | .sessionOpened .. => true
  | _ => false

/-- The session an entry says is over. -/
def Entry.ends (entry : Entry) : Option SessionId :=
  if entry.event.isEnd then some entry.who.session else none

inductive AuditError
  | notRecorded
  | full
  | retentionCorrupt
  | evaluationFull
  | notHeldForApproval (sequence : Nat)
  | notItsApproval (sequence : Nat)
  | noSuchDecision (sequence : Nat)
  | notItsDecision (sequence : Nat)
  | stillRunning (run : RunId)
  | alreadyCompleted (run : RunId)
  | evaluationDecisionUnknown (digest : Digest)
  | evaluationConflict (id : String)
  | decisionAlreadyEvaluated (digest : Digest)
  deriving DecidableEq

/-! ## What the record rests on -/

/-- The two third-party functions the record uses: the hash of the `sha2`
crate, and `serde_json`'s rendering of an entry, which does not fail on values
of this type. -/
structure Format where
  sha256 : List UInt8 → Digest
  encode : Entry → List UInt8

/-- `digest_of`: an entry is hashed over everything except its own digest,
which a fixed placeholder stands in for. -/
def Format.digestOf (format : Format) (entry : Entry) : Digest :=
  format.sha256 (format.encode { entry with digest := ⟨[]⟩ })

/-- `encoded_bytes`. -/
def Format.encodedBytes (format : Format) (entry : Entry) : Nat :=
  (format.encode entry).length

end McpSsh
