import McpSsh.Approval.Request
import McpSsh.Audit.Chain

/-!
# What the ledger hands back

Recording a decision yields the intent it was recorded as, and a receipt when
the decision permitted running; recording an agreement yields a receipt for a
decision that did not. A proof is named by the sequence of its entry: the
ledger makes one for each entry it pins, and holding it keeps it alive.
-/

namespace McpSsh

/-- What a decision entry permitted, in a form that travels. -/
structure Authorization where
  sequence : Nat
  digest : Digest
  who : Attribution
  deriving DecidableEq, Inhabited

/-- Proof that a command was recorded before it ran. -/
structure Receipt where
  authorization : Authorization
  action : Action
  deriving DecidableEq, Inhabited

/-- A recorded intent, and what it hands back. -/
structure Intended where
  entry : Entry
  decision : Decision
  agentIntent : CommandIntent
  receipt : Option Receipt
  proof : Option Nat
  deriving DecidableEq, Inhabited

namespace Ledger

/-- The receipt an entry written for a session authorizes an action with. -/
def receiptFor (entry : Entry) (session : Session) (action : Action) : Receipt :=
  ⟨⟨entry.sequence, entry.digest, session.attribution⟩, action⟩

/-- What `record_intent` writes. -/
def decidedEvent (decision : Decision) (agentIntent : CommandIntent) : Event :=
  .decided {
    operation := decision.action.kind
    agentIntent := agentIntent.text
    argv := decision.action.command.argv
    program := decision.action.command.program
    accessClass := decision.session.accessClass
    purpose := decision.session.purpose.text
    verdict := decision.verdict
    policies := decision.policies }

namespace State

/-- Indexes a readable decision for evaluation. -/
def indexDecision (state : State) (entry : Entry) (decision : Decision)
    (agentIntent : CommandIntent) : State :=
  if state.readable entry.sequence then { state with
    evaluations := { state.evaluations with
      readableDecisions := (entry.digest, {
        operation := decision.action.kind
        sequence := entry.sequence
        attribution := decision.session.attribution
        argv := decision.action.command.argv
        agentIntent := agentIntent.text
        purpose := decision.session.purpose.text
        accessClass := decision.session.accessClass }) :: state.evaluations.readableDecisions } }
  else state

section
variable (format : Format) (limits : Limits) (alive : Nat → Bool) (now : Nat) (accepts : Bool)

/-- `Ledger::record_intent`. -/
def recordIntent (decision : Decision) (agentIntent : CommandIntent) (state : State) :
    Except Refused (State × Intended) := do
  let event := decidedEvent decision agentIntent
  let (state, entry) ←
    state.append format limits alive now accepts decision.session.attribution event
  return (state.indexDecision entry decision agentIntent, {
    entry, decision, agentIntent
    receipt := if decision.verdict = .permit then
      some (receiptFor entry decision.session decision.action) else none
    proof := if event.pins then some entry.sequence else none })

end

/-- `Ledger::this_deliberation`: an entry is the deliberation an answer claims
to answer. -/
def thisDeliberation (state : State) (alive : Nat → Bool) (decided : Nat) (digest : Digest)
    (session : SessionId) : Except AuditError Unit :=
  let pinned := (state.activeProof alive decided).map (fun proof => Held.intact proof.entry)
  match (state.get decided).or pinned with
  | none => .error (.noSuchDecision decided)
  | some held =>
    if held.digest ≠ digest then .error (.notItsApproval decided)
    else
      match held with
      | .sealed .. => .ok ()
      | .intact entry =>
        match entry.event with
        | .decided what =>
          if what.verdict ≠ .needsApproval then .error (.notHeldForApproval decided)
          else if entry.who.session ≠ session then .error (.notItsApproval decided)
          else .ok ()
        | _ => .error (.notHeldForApproval decided)

end State

/-- What `record_approval` checks before it looks at the record. -/
def approvalRefusal (sha256 : List UInt8 → Digest) (intended : Intended) (grant : Grant) :
    Option AuditError :=
  if intended.decision.verdict ≠ .needsApproval then some (.notHeldForApproval grant.decided)
  else if grant.action ≠ digestAction sha256 intended.decision.action intended.agentIntent then
    some (.notItsApproval grant.decided)
  else if grant.session ≠ intended.decision.session.id then some (.notItsApproval grant.decided)
  else none

/-! ## On a state that stands for what was committed -/

section
variable {format : Format} {genesis : Digest} {committed : List Entry} {state : State}

/-- Indexing touches nothing the chain is made of. -/
theorem Represents.indexDecision (rep : Represents format genesis committed state) (entry : Entry)
    (decision : Decision) (agentIntent : CommandIntent) :
    Represents format genesis committed (state.indexDecision entry decision agentIntent) := by
  unfold State.indexDecision
  split
  · exact { rep with }
  · exact rep

@[simp] theorem State.indexDecision_proofs (state : State) (entry : Entry) (decision : Decision)
    (agentIntent : CommandIntent) :
    (state.indexDecision entry decision agentIntent).proofs = state.proofs := by
  unfold State.indexDecision
  split <;> rfl

/-- Recording an intent is one append of its decision; what it hands back is
of that entry. -/
theorem Represents.recordIntent (rep : Represents format genesis committed state) (limits : Limits)
    (alive : Nat → Bool) (now : Nat) (accepts : Bool) (decision : Decision)
    (agentIntent : CommandIntent) :
    (∃ error state', state.recordIntent format limits alive now accepts decision agentIntent =
        .error (error, state') ∧ (error = .full ∨ error = .notRecorded) ∧
        Represents format genesis committed state' ∧ Kept alive state state') ∨
    (accepts = true ∧ ∃ state' intended,
        state.recordIntent format limits alive now accepts decision agentIntent =
          .ok (state', intended) ∧
        intended.entry.sequence = committed.length ∧
        intended.entry.event = decidedEvent decision agentIntent ∧
        intended.entry.who = decision.session.attribution ∧
        intended.decision = decision ∧ intended.agentIntent = agentIntent ∧
        intended.receipt = (if decision.verdict = .permit then
          some (receiptFor intended.entry decision.session decision.action) else none) ∧
        intended.proof = (if (decidedEvent decision agentIntent).pins then
          some intended.entry.sequence else none) ∧
        Represents format genesis (committed ++ [intended.entry]) state' ∧
        (∀ proof ∈ state.proofs, alive proof.entry.sequence = true → proof ∈ state'.proofs) ∧
        ((decidedEvent decision agentIntent).pins = true →
          ∃ proof ∈ state'.proofs, proof.entry = intended.entry)) := by
  rcases rep.append limits alive now accepts decision.session.attribution
    (decidedEvent decision agentIntent) with
    ⟨error, state', refused, why, rep', kept⟩ |
    ⟨accepted, state', entry, appended, sequence, -, who, event, rep', kept, pinned⟩
  · refine .inl ⟨error, state', ?_, why, rep', kept⟩
    simp only [State.recordIntent, refused, bind, Except.bind]
  · refine .inr ⟨accepted, state'.indexDecision entry decision agentIntent,
      ⟨entry, decision, agentIntent,
        if decision.verdict = .permit then
          some (receiptFor entry decision.session decision.action) else none,
        if (decidedEvent decision agentIntent).pins then some entry.sequence else none⟩,
      ?_, sequence, event, who, rfl, rfl, rfl, rfl,
      rep'.indexDecision entry decision agentIntent, ?_, ?_⟩
    · simp only [State.recordIntent, appended, bind, Except.bind]
      rfl
    · simpa using kept
    · simpa using pinned

/-- A committed decision that asked for a human is a deliberation of its
session, as long as its proof is kept: whatever else was appended, sealed or
retired since. -/
theorem Represents.thisDeliberation (rep : Represents format genesis committed state)
    {alive : Nat → Bool} {entry : Entry} (member : entry ∈ committed) {what : Decided}
    (event : entry.event = .decided what) (held : what.verdict = .needsApproval)
    (live : alive entry.sequence = true)
    (kept : ∃ proof ∈ state.proofs, proof.entry.sequence = entry.sequence) :
    state.thisDeliberation alive entry.sequence entry.digest entry.who.session = .ok () := by
  obtain ⟨index, at'⟩ := List.getElem?_of_mem member
  have place := (rep.chained index entry at').1
  rw [← place] at at'
  -- Either way of finding the entry shows the entry that was committed.
  have shows : ∀ held, (state.get entry.sequence).or ((state.activeProof alive entry.sequence).map
      (fun proof => Held.intact proof.entry)) = some held → held.Shows entry := by
    intro found eq
    rcases Option.or_eq_some_iff.mp eq with window | ⟨-, pinned⟩
    · unfold State.get at window
      split at window
      · obtain ⟨other, otherAt, shows⟩ := rep.shows _ _ window
        rw [show state.issued.retired + (entry.sequence - state.issued.retired) = entry.sequence
          by omega, at'] at otherAt
        cases otherAt
        exact shows
      · cases window
    · obtain ⟨proof, active, rfl⟩ := Option.map_eq_some_iff.mp pinned
      simp only [State.activeProof, live, if_true] at active
      have same := List.find?_some active
      simp only [decide_eq_true_eq] at same
      have proofAt := (rep.proofs proof (List.mem_of_find?_eq_some active)).1
      rw [same, at'] at proofAt
      cases proofAt
      exact .inl rfl
  have some' : ∃ held, (state.get entry.sequence).or ((state.activeProof alive entry.sequence).map
      (fun proof => Held.intact proof.entry)) = some held := by
    obtain ⟨proof, inside, same⟩ := kept
    cases window : state.get entry.sequence with
    | some held => exact ⟨held, rfl⟩
    | none =>
      have found : (state.proofs.find? (·.entry.sequence = entry.sequence)).isSome := by
        rw [List.find?_isSome]
        exact ⟨proof, inside, by simpa using same⟩
      obtain ⟨other, eq⟩ := Option.isSome_iff_exists.mp found
      exact ⟨.intact other.entry, by simp [State.activeProof, live, eq]⟩
  obtain ⟨found, eq⟩ := some'
  unfold State.thisDeliberation
  simp only [eq]
  have shown := shows found eq
  rw [if_neg (by simp [shown.digest])]
  rcases shown with rfl | rfl
  · simp only [event, held]
    simp
  · rfl

end

end Ledger

end McpSsh
