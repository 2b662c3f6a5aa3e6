import McpSsh.Audit.Room
import McpSsh.Runs.Outcome

/-!
# The record

Every operation of the ledger, each under one hold of its lock, and the worlds
they reach. `record_approval` and `record_answer` ask about a deliberation under
an earlier hold, which changes nothing; what they append afterwards is an
operation here whatever was asked.
-/

namespace McpSsh

/-- Whether an entry mints an authorization to run. -/
def Event.allowsRun : Event → Bool
  | .decided what => what.verdict = .permit
  | .approved _ => true
  | _ => false

theorem Event.pins_of_allowsRun {event : Event} (allows : event.allowsRun = true) :
    event.pins = true := by
  cases event with
  | decided what =>
    simp only [Event.allowsRun, decide_eq_true_eq] at allows
    simp [Event.pins, allows]
  | approved => rfl
  | _ => cases allows

/-- The authorization an entry mints. -/
def Entry.authorization (entry : Entry) : Authorization :=
  ⟨entry.sequence, entry.digest, entry.who⟩

@[simp] theorem Entry.authorization_sequence (entry : Entry) :
    entry.authorization.sequence = entry.sequence := rfl

@[simp] theorem Entry.authorization_digest (entry : Entry) :
    entry.authorization.digest = entry.digest := rfl

@[simp] theorem Entry.authorization_who (entry : Entry) : entry.authorization.who = entry.who := rfl

namespace Ledger

namespace State

section
variable (format : Format) (limits : Limits) (alive : Nat → Bool) (now : Nat) (accepts : Bool)

/-- What `Ledger::record_approval` appends once its checks have passed. -/
def recordApproval (intended : Intended) (grant : Grant) (state : State) :
    Except Refused (State × Receipt × Entry) := do
  let (state, entry) ← state.append format limits alive now accepts
    intended.decision.session.attribution grant.event
  return (state, receiptFor entry intended.decision.session intended.decision.action, entry)

/-- What `Ledger::record_answer` appends once its check has passed. -/
def recordAnswer (answer : Answer) (state : State) : Except Refused (State × Entry) :=
  state.append format limits alive now accepts answer.asked.attribution answer.event

/-- `Ledger::record_session_opened`. -/
def recordSessionOpened (session : Session) (state : State) : Except Refused (State × Entry) :=
  state.append format limits alive now accepts session.attribution
    (.sessionOpened session.purpose.text session.accessClass)

/-- `Ledger::record_session_closed`. -/
def recordSessionClosed (session : Session) (state : State) : Except Refused (State × Entry) :=
  state.append format limits alive now accepts session.attribution .sessionClosed

/-- `Ledger::record_session_terminated`. -/
def recordSessionTerminated (session : Session) (operator : PrincipalId) (state : State) :
    Except Refused (State × Entry) :=
  state.append format limits alive now accepts session.attribution (.sessionTerminated operator)

end

/-- `this_records_decision`. `proof` is the entry of this record whose proof
the authorization holds; two are the same proof when they are of one entry. -/
def thisRecordsDecision (state : State) (alive : Nat → Bool) (authorized : Authorization)
    (proof : Option Nat) : Except AuditError Unit :=
  let sequence := authorized.sequence
  match state.activeProof alive sequence with
  | none =>
    if (state.get sequence).isSome then .error (.notItsDecision sequence)
    else .error (.noSuchDecision sequence)
  | some active =>
    if proof ≠ some sequence ∨ active.entry.digest ≠ authorized.digest then
      .error (.notItsDecision sequence)
    else
      let held := (state.get sequence).getD (.intact active.entry)
      if held.digest ≠ authorized.digest then .error (.notItsDecision sequence)
      else
        match held with
        | .intact entry =>
          if entry.event.allowsRun then .ok () else .error (.notItsDecision sequence)
        | .sealed .. => .ok ()

/-- The replay guard of a proof. -/
def isCompleted (state : State) (sequence : Nat) : Bool :=
  state.proofs.any (fun proof => proof.entry.sequence = sequence && proof.completed)

/-- Sets the replay guard of a proof. -/
def complete (state : State) (sequence : Nat) : State :=
  { state with
    proofs := state.proofs.map (fun proof =>
      if proof.entry.sequence = sequence then { proof with completed := true } else proof) }

section
variable (format : Format) (limits : Limits) (alive : Nat → Bool) (now : Nat) (accepts : Bool)

/-- `Ledger::record_outcome`. -/
def recordOutcome (outcome : Outcome) (state : State) : Except Refused (State × Entry) := do
  if outcome.stillRunning then throw (.stillRunning outcome.run, state)
  let authorized := outcome.authorization
  match state.thisRecordsDecision alive authorized outcome.proof with
  | .error error => throw (error, state)
  | .ok () =>
    if state.isCompleted authorized.sequence then throw (.alreadyCompleted outcome.run, state)
    let (state, entry) ←
      state.append format limits alive now accepts authorized.who outcome.event
    return (state.complete authorized.sequence, entry)

/-- `Ledger::record_cancellation`. -/
def recordCancellation (run : RunId) (authorized : Authorization) (proof : Option Nat)
    (state : State) : Except Refused (State × Entry) :=
  match state.thisRecordsDecision alive authorized proof with
  | .error error => .error (error, state)
  | .ok () =>
    state.append format limits alive now accepts authorized.who
      (.cancellationRequested run authorized.sequence)

/-- What `record_evaluation` writes. -/
def evaluatedEvent (artifact : EvaluationArtifact) (decision : ReadableDecision) : Event :=
  .evaluated {
    operation := decision.operation
    artifact
    decided := decision.sequence
    argv := decision.argv
    agentIntent := decision.agentIntent
    purpose := decision.purpose
    accessClass := decision.accessClass }

/-- Takes an identifier and a decision as evaluated. -/
def indexEvaluation (state : State) (artifact : EvaluationArtifact) (entry : Entry) : State :=
  { state with
    evaluations := { state.evaluations with
      issuedIds := artifact.evaluationId :: state.evaluations.issuedIds
      evaluatedDecisions := artifact.decisionDigest :: state.evaluations.evaluatedDecisions
      readableArtifacts :=
        if state.readable entry.sequence then
          (artifact.evaluationId, entry) :: state.evaluations.readableArtifacts
        else state.evaluations.readableArtifacts } }

/-- The entry an identifier was already used for, if it holds this artifact. -/
def evaluationOf (state : State) (artifact : EvaluationArtifact) : Option Entry :=
  (state.evaluations.readableArtifacts.lookup artifact.evaluationId).filter (fun entry =>
    match entry.event with
    | .evaluated what => what.artifact = artifact
    | _ => false)

/-- `Ledger::record_evaluation`. -/
def recordEvaluation (artifact : EvaluationArtifact) (state : State) :
    Except Refused (State × Entry) := do
  let state ← state.reclaim format limits alive now
  if artifact.evaluationId ∈ state.evaluations.issuedIds then
    match state.evaluationOf artifact with
    | some entry => return (state, entry)
    | none => throw (.evaluationConflict artifact.evaluationId, state)
  if artifact.decisionDigest ∈ state.evaluations.evaluatedDecisions then
    throw (.decisionAlreadyEvaluated artifact.decisionDigest, state)
  if limits.evaluationIds ≤ state.evaluations.issuedIds.length then
    throw (.evaluationFull, state)
  match state.evaluations.readableDecisions.lookup artifact.decisionDigest with
  | none => throw (.evaluationDecisionUnknown artifact.decisionDigest, state)
  | some decision =>
    let (state, entry) ← state.append format limits alive now accepts decision.attribution
      (evaluatedEvent artifact decision)
    return (state.indexEvaluation artifact entry, entry)

/-- Seals each entry before a sequence, and goes on past one that does not
check: altered evidence must remain available for verification. -/
def sealEach (sequence : Nat) : List Nat → State → State
  | [], state => state
  | index :: rest, state =>
    if (state.entries[index]?).any (·.sequence < sequence) then
      match state.sealAt format index with
      | .error _ => sealEach sequence rest state
      | .ok state => sealEach sequence rest state
    else sealEach sequence rest state

/-- `Ledger::seal_before`. -/
def sealBefore (sequence : Nat) (state : State) : State :=
  (sealEach format sequence (List.range state.entries.length) state).pruneIndexes alive

end

end State

/-! ## Worlds of one record -/

/-- One operation, under one hold of the lock; or the last reference to a proof
is dropped. -/
inductive Operation
  | recordIntent (decision : Decision) (agentIntent : CommandIntent)
  | recordApproval (intended : Intended) (grant : Grant)
  | recordAnswer (answer : Answer)
  | recordOutcome (outcome : Outcome)
  | recordEvaluation (artifact : EvaluationArtifact)
  | recordSessionOpened (session : Session)
  | recordCancellation (run : RunId) (authorized : Authorization) (proof : Option Nat)
  | recordSessionClosed (session : Session)
  | recordSessionTerminated (session : Session) (operator : PrincipalId)
  | sealBefore (sequence : Nat)
  | reclaim
  | drop (sequence : Nat)

/-- What an operation hands back: an entry, and an authorization it minted. -/
structure Written where
  entry : Option Entry
  authorization : Option Authorization

/-- What an operation that appends an entry hands back. -/
def Written.of (entry : Entry) : Written := ⟨some entry, none⟩

/-- What an operation does to the state. -/
def Operation.perform (format : Format) (limits : Limits) (alive : Nat → Bool) (now : Nat)
    (accepts : Bool) (state : State) : Operation → Except Refused (State × Written)
  | .recordIntent decision agentIntent =>
    (state.recordIntent format limits alive now accepts decision agentIntent).map
      (fun (state, intended) =>
        (state, ⟨some intended.entry, intended.receipt.map Receipt.authorization⟩))
  | .recordApproval intended grant =>
    (state.recordApproval format limits alive now accepts intended grant).map
      (fun (state, receipt, entry) => (state, ⟨some entry, some receipt.authorization⟩))
  | .recordAnswer answer =>
    (state.recordAnswer format limits alive now accepts answer).map (Prod.map id Written.of)
  | .recordOutcome outcome =>
    (state.recordOutcome format limits alive now accepts outcome).map (Prod.map id Written.of)
  | .recordEvaluation artifact =>
    (state.recordEvaluation format limits alive now accepts artifact).map (Prod.map id Written.of)
  | .recordSessionOpened session =>
    (state.recordSessionOpened format limits alive now accepts session).map
      (Prod.map id Written.of)
  | .recordCancellation run authorized proof =>
    (state.recordCancellation format limits alive now accepts run authorized proof).map
      (Prod.map id Written.of)
  | .recordSessionClosed session =>
    (state.recordSessionClosed format limits alive now accepts session).map
      (Prod.map id Written.of)
  | .recordSessionTerminated session operator =>
    (state.recordSessionTerminated format limits alive now accepts session operator).map
      (Prod.map id Written.of)
  | .sealBefore sequence => .ok (state.sealBefore format alive sequence, ⟨none, none⟩)
  | .reclaim => (state.reclaim format limits alive now).map (·, ⟨none, none⟩)
  | .drop _ => .ok (state, ⟨none, none⟩)

/-- A ledger with what it has committed and minted so far, and the proofs that
nothing refers to any more. -/
structure Record where
  state : State
  committed : List Entry
  minted : List Authorization
  dropped : List Nat

namespace Record

/-- `Ledger::new`. -/
def new (genesis : Digest) : Record := ⟨State.new genesis, [], [], []⟩

/-- Which proofs are still referenced. -/
def alive (record : Record) (sequence : Nat) : Bool := sequence ∉ record.dropped

/-- Whether an authorization is one this record minted, still held, or one that
some other record minted. -/
def Presentable (record : Record) (authorized : Authorization) (proof : Option Nat) : Prop :=
  proof = none ∨
    proof = some authorized.sequence ∧ authorized ∈ record.minted ∧
      record.alive authorized.sequence = true

/-- Whether an operation can be asked for: authorizations are not made up, and
a proof is dropped that exists. -/
def Offers (record : Record) : Operation → Prop
  | .recordOutcome outcome => record.Presentable outcome.authorization outcome.proof
  | .recordCancellation _ authorized proof => record.Presentable authorized proof
  | .drop sequence => sequence < record.committed.length
  | _ => True

/-- The record after an operation. An entry handed back is a new one when the
count of issued entries has grown. -/
def perform (format : Format) (limits : Limits) (record : Record) (operation : Operation)
    (now : Nat) (accepts : Bool) : Record :=
  match operation.perform format limits record.alive now accepts record.state with
  | .error (_, state) => { record with state }
  | .ok (state, written) => {
      state
      committed := record.committed ++
        if state.issued.total = record.state.issued.total then [] else written.entry.toList
      minted := written.authorization.toList ++ record.minted
      dropped := match operation with
        | .drop sequence => sequence :: record.dropped
        | _ => record.dropped }

/-- One operation, at any reading of the clock and any answer of the sink. -/
def Step (format : Format) (limits : Limits) (before after : Record) : Prop :=
  ∃ operation now accepts, before.Offers operation ∧
    before.perform format limits operation now accepts = after

/-- Any number of operations. -/
def Later (format : Format) (limits : Limits) : Record → Record → Prop :=
  Relation.ReflTransGen (Step format limits)

/-- What a new ledger can come to. -/
def Reachable (format : Format) (limits : Limits) (genesis : Digest) (record : Record) : Prop :=
  Later format limits (new genesis) record

end Record

/-! ## A small record -/

namespace Sample

def format : Format := ⟨fun bytes => ⟨bytes⟩, fun entry => [UInt8.ofNat entry.sequence]⟩

/-- A window of two entries. -/
def limits : Limits := { Limits.default with entries := 2 }

def permitted : Decision := { (default : Decision) with verdict := .permit }

/-- A record with one decision that permitted its command. -/
def decided : Record :=
  (Record.new ⟨[]⟩).perform format limits (.recordIntent permitted default) 0 true

theorem decided_reachable : Record.Reachable format limits ⟨[]⟩ decided :=
  .single ⟨.recordIntent permitted default, 0, true, trivial, rfl⟩

/-- What the one command of the record came to. -/
def outcome : Outcome where
  run := default
  authorization := ⟨0, ⟨[0]⟩, permitted.session.attribution⟩
  proof := some 0
  state := .exited 0
  stdout := ⟨"", false, 0, none⟩
  stderr := ⟨"", false, 0, none⟩
  file := none
  info := none

theorem outcome_offered : decided.Offers (.recordOutcome outcome) := .inr ⟨rfl, by decide, by decide⟩

/-- It is recorded, nothing refers to its decision any more, and that is sealed. -/
def settled : Record :=
  ((decided.perform format limits (.recordOutcome outcome) 1 true).perform format limits (.drop 0) 1
    true).perform format limits (.sealBefore 1) 2 true

theorem settled_reachable : Record.Reachable format limits ⟨[]⟩ settled := by
  have first : 0 < (decided.perform format limits (.recordOutcome outcome) 1 true).committed.length := by
    decide +kernel
  exact .tail (.tail (.tail decided_reachable ⟨.recordOutcome outcome, 1, true, outcome_offered, rfl⟩)
    ⟨.drop 0, 1, true, first, rfl⟩) ⟨.sealBefore 1, 2, true, trivial, rfl⟩

/-- The next decision, for which the sealed one makes room. -/
def busy : Record := settled.perform format limits (.recordIntent permitted default) 3 true

theorem busy_reachable : Record.Reachable format limits ⟨[]⟩ busy :=
  .tail settled_reachable ⟨.recordIntent permitted default, 3, true, trivial, rfl⟩

end Sample

end Ledger

end McpSsh
