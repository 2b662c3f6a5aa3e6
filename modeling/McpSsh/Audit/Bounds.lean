import McpSsh.Audit.Completion
import McpSsh.Audit.Evaluations
import McpSsh.Audit.Line

/-!
# What a ledger commits

The values an operation is handed have the bounds of their types in the source.
Every entry an operation commits then has the bounds of the format: a step keeps
what was committed, minted and kept for evaluation within them.
-/

namespace McpSsh.Ledger

open State

/-! ## What operations are handed -/

/-- An approver a request can be answered by. -/
structure Stating (approver : Approver) : Prop where
  stated : approver.isStated = true
  agreement : ∀ id ∈ approver.agreement, Drawn id.draw

def Stream.Bounded (stream : Stream) : Prop := ∀ what ∈ stream.matched, isBlank what = false

structure Outcome.Bounded (outcome : Outcome) : Prop where
  run : outcome.run.draw < 16 ^ 48
  stdout : Stream.Bounded outcome.stdout
  stderr : Stream.Bounded outcome.stderr
  file : ∀ file ∈ outcome.movedFile, file.Bounded
  info : ∀ info ∈ outcome.info, info.isBounded = true

/-- The bounds of what an operation is handed. -/
def Operation.Bounded : Operation → Prop
  | .recordIntent decision _ =>
    Drawn decision.session.id.draw ∧ ∀ policy ∈ decision.policies, isBlank policy = false
  | .recordApproval intended grant =>
    Drawn intended.decision.session.id.draw ∧ grant.decided < 2 ^ 64 ∧ Drawn grant.request.draw ∧
      Stating grant.approver
  | .recordAnswer answer =>
    Drawn answer.asked.session.draw ∧ answer.asked.decided < 2 ^ 64 ∧ Drawn answer.asked.id.draw ∧
      Stating answer.approver
  | .recordOutcome outcome => Outcome.Bounded outcome
  | .recordEvaluation artifact => artifact.draft.refusal artifact.evaluator = none
  | .recordSessionOpened session => Drawn session.id.draw
  | .recordCancellation run _ _ => run.draw < 16 ^ 48
  | .recordSessionClosed session => Drawn session.id.draw
  | .recordSessionTerminated session _ => Drawn session.id.draw
  | .sealBefore _ => True
  | .reclaim => True
  | .drop _ => True

theorem Stating.bounded {approver : Approver} (stating : Stating approver) :
    approver.stated.Bounded := by
  have stated := stating.stated
  constructor
  · cases approver <;>
      simp only [Approver.isStated, Bool.and_eq_true, Bool.not_eq_true'] at stated <;>
      simp [Approver.stated, stated]
  · intro because is
    cases approver with
    | override who why =>
      cases is
      simp only [Approver.isStated, Bool.and_eq_true, Bool.not_eq_true'] at stated
      exact stated.2
    | _ => cases is
  · intro id is
    cases approver with
    | sessionStanding who agreement => exact stating.agreement id is
    | _ => cases is

theorem Stream.Bounded.recorded {stream : Stream} (bounded : Stream.Bounded stream) :
    stream.recorded.Bounded := by
  unfold Stream.recorded
  split
  case h_1 what matched => exact bounded what matched
  case h_2 => trivial

/-- A text that starts with one that is not blank is not blank. -/
theorem not_blank_append {text : String} (inked : isBlank text = false) (more : String) :
    isBlank (text ++ more) = false := by
  unfold isBlank at inked ⊢
  rw [String.toList_append, List.all_append, inked]
  rfl

/-- A completion always says what state it is about. -/
theorem runState_stated (state : RunState) : isBlank state.debug = false := by
  have exited : isBlank "Exited \x7b code: " = false := by decide
  have failed : isBlank "TransferFailed \x7b cause: " = false := by decide
  cases state with
  | exited code =>
    exact not_blank_append (not_blank_append exited (toString code.toNat)) " \x7d"
  | transferFailed cause remote =>
    exact not_blank_append (not_blank_append (not_blank_append (not_blank_append failed
      cause.debug) ", remote_write_may_be_partial: ") (if remote then "true" else "false")) " \x7d"
  | _ => decide

theorem Outcome.Bounded.event {outcome : Outcome} (bounded : Outcome.Bounded outcome)
    (fits : outcome.authorization.sequence < 2 ^ 64) : outcome.event.Bounded where
  run := bounded.run
  decided := fits
  state := runState_stated outcome.state
  stdout := bounded.stdout.recorded
  stderr := bounded.stderr.recorded
  file := bounded.file
  info := bounded.info

theorem decidedEvent_bounded {decision : Decision} (agentIntent : CommandIntent)
    (policies : ∀ policy ∈ decision.policies, isBlank policy = false) :
    (decidedEvent decision agentIntent).Bounded where
  agentIntent := agentIntent.accepted
  argv := decision.action.command.accepted
  program := rfl
  purpose := decision.session.purpose.accepted
  policies := policies

/-! ## What an operation commits -/

/-- A decision kept for evaluation, within bounds. -/
structure ReadableDecision.Bounded (decision : ReadableDecision) : Prop where
  sequence : decision.sequence < 2 ^ 64
  session : Drawn decision.attribution.session.draw
  argv : Command.refusal decision.argv = none
  agentIntent : CommandIntent.refusal decision.agentIntent = none
  purpose : Purpose.refusal decision.purpose = none

/-- Every decision a state keeps for evaluation is within bounds. -/
def State.Indexes (state : State) : Prop :=
  ∀ kept ∈ state.evaluations.readableDecisions, ReadableDecision.Bounded kept.2

variable {format : Format} {limits : Limits} {alive : Nat → Bool} {now : Nat} {accepts : Bool}
variable {genesis : Digest} {before after state : State}

theorem State.Discards.indexes (step : Discards format alive before after)
    (indexes : before.Indexes) : after.Indexes := by
  have same (unmoved : after.evaluations = before.evaluations) : after.Indexes := by
    unfold State.Indexes
    rw [unmoved]
    exact indexes
  cases step with
  | sealAt done =>
    apply same
    unfold State.sealAt at done
    split at done
    · split at done <;> cases done <;> rfl
    · cases done
  | retireFront done =>
    apply same
    unfold State.retireFront at done
    split at done
    · split at done
      · split at done <;> cases done
        rfl
      · cases done
    · cases done
  | prune => exact fun kept listed => indexes kept (List.mem_filter.mp listed).1

theorem State.MakesRoom.indexes (room : MakesRoom format alive before after)
    (indexes : before.Indexes) : after.Indexes := by
  induction room with
  | refl => exact indexes
  | tail _ step ih => exact State.Discards.indexes step ih

/-- An entry as an operation writes one, apart from its place in the chain. -/
structure Attested (now : Nat) (entry : Entry) : Prop where
  atMillis : entry.atMillis = now
  session : Drawn entry.who.session.draw
  event : entry.event.Bounded

/-- What comes of an operation: what is kept for evaluation stays within bounds,
and so is an entry that is new. -/
def Ships (now : Nat) (before : State) : Except Refused (State × Written) → Prop
  | .error (_, after) => after.Indexes
  | .ok (after, written) => after.Indexes ∧
    (after.issued.total ≠ before.issued.total → ∀ entry ∈ written.entry, Attested now entry)

theorem Ships.of_append {who : Attribution} {event : Event} (indexes : before.Indexes)
    (session : Drawn who.session.draw) (bounded : event.Bounded)
    (next : State × Entry → State × Written)
    (keeps : before.issued.total + 1 ≤ maxCount → ∀ appended : State, appended.Indexes →
      (next (appended, before.draft format now who event)).1.Indexes)
    (written : ∀ appended, (next (appended, before.draft format now who event)).2.entry =
      some (before.draft format now who event)) :
    Ships now before ((before.append format limits alive now accepts who event).map next) := by
  rcases before.append_cases format limits alive now accepts who event with
    ⟨error, after, failed, makes⟩ | ⟨ready, readable, appended, -, makes, total, -⟩
  · rw [failed]
    exact State.MakesRoom.indexes makes indexes
  · rw [appended]
    have kept : ready.Indexes := State.MakesRoom.indexes makes indexes
    refine ⟨keeps total _ kept, fun _ entry is => ?_⟩
    rw [written] at is
    cases is
    exact ⟨rfl, session, bounded⟩

/-- An append that is handed on as it is. -/
theorem Ships.of_plain {who : Attribution} {event : Event} (indexes : before.Indexes)
    (session : Drawn who.session.draw) (bounded : event.Bounded) :
    Ships now before
      ((before.append format limits alive now accepts who event).map (Prod.map id Written.of)) :=
  .of_append indexes session bounded _ (fun _ _ indexes => indexes) (fun _ => rfl)

theorem recordIntent_ships (decision : Decision) (agentIntent : CommandIntent)
    (indexes : before.Indexes)
    (bounded : (Operation.recordIntent decision agentIntent).Bounded) :
    Ships now before ((Operation.recordIntent decision agentIntent).perform format limits alive now
      accepts before) := by
  obtain ⟨session, policies⟩ := bounded
  have same : (Operation.recordIntent decision agentIntent).perform format limits alive now accepts
        before =
      (before.append format limits alive now accepts decision.session.attribution
        (decidedEvent decision agentIntent)).map (fun made =>
          (made.1.indexDecision made.2 decision agentIntent,
            ⟨some made.2, (if decision.verdict = .permit then
              some (receiptFor made.2 decision.session decision.action) else none).map
                Receipt.authorization⟩)) := by
    simp only [Operation.perform, State.recordIntent, bind, Except.bind, pure, Except.pure]
    cases before.append format limits alive now accepts decision.session.attribution
      (decidedEvent decision agentIntent) <;> rfl
  rw [same]
  refine .of_append indexes session (decidedEvent_bounded agentIntent policies) _ ?_ (fun _ => rfl)
  intro total appended kept
  unfold State.indexDecision
  dsimp only
  split
  · refine List.forall_mem_cons.mpr ⟨⟨?_, session, decision.action.command.accepted,
      agentIntent.accepted, decision.session.purpose.accepted⟩, kept⟩
    exact Nat.lt_of_lt_of_le (Nat.lt_of_succ_le total) (by decide)
  · exact kept

theorem recordApproval_ships (intended : Intended) (grant : Grant) (indexes : before.Indexes)
    (bounded : (Operation.recordApproval intended grant).Bounded) :
    Ships now before ((Operation.recordApproval intended grant).perform format limits alive now
      accepts before) := by
  obtain ⟨session, fits, drawn, stating⟩ := bounded
  have same : (Operation.recordApproval intended grant).perform format limits alive now accepts
        before =
      (before.append format limits alive now accepts intended.decision.session.attribution
        grant.event).map (fun made => (made.1, ⟨some made.2, some
          (receiptFor made.2 intended.decision.session
            intended.decision.action).authorization⟩)) := by
    simp only [Operation.perform, State.recordApproval, bind, Except.bind, pure, Except.pure]
    cases before.append format limits alive now accepts intended.decision.session.attribution
      grant.event <;> rfl
  rw [same]
  have event : grant.event.Bounded := ⟨fits, drawn, stating.bounded⟩
  exact .of_append indexes session event _ (fun _ _ kept => kept) (fun _ => rfl)

/-- What can be presented to a record whose authorizations are within bounds. -/
def Minted (minted : List Authorization) : Prop :=
  ∀ authorized ∈ minted, authorized.sequence < 2 ^ 64 ∧ Drawn authorized.who.session.draw

theorem recordOutcome_ships (outcome : Outcome) (indexes : before.Indexes)
    (bounded : Outcome.Bounded outcome)
    (authorized : before.thisRecordsDecision alive outcome.authorization outcome.proof = .ok () →
      outcome.authorization.sequence < 2 ^ 64 ∧ Drawn outcome.authorization.who.session.draw) :
    Ships now before ((Operation.recordOutcome outcome).perform format limits alive now accepts
      before) := by
  simp only [Operation.perform, State.recordOutcome, bind, Except.bind, pure, Except.pure, throw,
    throwThe, MonadExceptOf.throw]
  split
  · exact indexes
  split
  · exact indexes
  rename_i own
  split
  · exact indexes
  obtain ⟨fits, session⟩ := authorized own
  have ships : Ships now before
      ((before.append format limits alive now accepts outcome.authorization.who outcome.event).map
        (fun made => (made.1.complete outcome.authorization.sequence, Written.of made.2))) :=
    .of_append indexes session (bounded.event fits) _ (fun _ _ kept => kept) (fun _ => rfl)
  cases appended : before.append format limits alive now accepts outcome.authorization.who
    outcome.event with
  | error refused =>
    rw [appended] at ships
    exact ships
  | ok written =>
    rw [appended] at ships
    exact ships

theorem recordCancellation_ships (run : RunId) (authorization : Authorization) (proof : Option Nat)
    (indexes : before.Indexes) (drawn : run.draw < 16 ^ 48)
    (authorized : before.thisRecordsDecision alive authorization proof = .ok () →
      authorization.sequence < 2 ^ 64 ∧ Drawn authorization.who.session.draw) :
    Ships now before ((Operation.recordCancellation run authorization proof).perform format limits
      alive now accepts before) := by
  simp only [Operation.perform, State.recordCancellation]
  split
  · exact indexes
  · rename_i own
    obtain ⟨fits, session⟩ := authorized own
    exact .of_plain indexes session ⟨drawn, fits⟩

theorem recordEvaluation_ships (artifact : EvaluationArtifact) (indexes : before.Indexes)
    (bounded : artifact.draft.refusal artifact.evaluator = none) :
    Ships now before ((Operation.recordEvaluation artifact).perform format limits alive now accepts
      before) := by
  simp only [Operation.perform, State.recordEvaluation, bind, Except.bind, pure, Except.pure, throw,
    throwThe, MonadExceptOf.throw]
  have left := State.reclaim_left format limits alive now before
  cases reclaimed : before.reclaim format limits alive now with
  | error refused => exact State.MakesRoom.indexes (left.of_error reclaimed) indexes
  | ok middle =>
    have makes := left.of_ok reclaimed
    have kept : middle.Indexes := State.MakesRoom.indexes makes indexes
    have total := makes.shrinks.total
    simp only
    split
    · split
      · exact ⟨kept, fun other => absurd total other⟩
      · exact kept
    split
    · exact kept
    split
    · exact kept
    split
    · exact kept
    rename_i decision found
    obtain ⟨_, _, split', -⟩ := List.lookup_eq_some_iff.mp found
    have within : ReadableDecision.Bounded decision :=
      kept _ (split' ▸ List.mem_append_right _ List.mem_cons_self)
    have event : (State.evaluatedEvent artifact decision).Bounded :=
      ⟨bounded, within.sequence, within.argv, within.agentIntent, within.purpose⟩
    have ships : Ships now middle
        ((middle.append format limits alive now accepts decision.attribution
          (State.evaluatedEvent artifact decision)).map
            (fun made => (made.1.indexEvaluation artifact made.2, Written.of made.2))) :=
      .of_append kept within.session event _ (fun _ _ kept => kept) (fun _ => rfl)
    cases appended : middle.append format limits alive now accepts decision.attribution
      (State.evaluatedEvent artifact decision) with
    | error refused =>
      rw [appended] at ships
      exact ships
    | ok written =>
      rw [appended] at ships
      exact ⟨ships.1, fun other => ships.2 (total ▸ other)⟩

/-- What an operation presents is within bounds if the record takes it. -/
def Presents (alive : Nat → Bool) (before : State) : Operation → Prop
  | .recordOutcome outcome =>
    before.thisRecordsDecision alive outcome.authorization outcome.proof = .ok () →
      outcome.authorization.sequence < 2 ^ 64 ∧ Drawn outcome.authorization.who.session.draw
  | .recordCancellation _ authorization proof =>
    before.thisRecordsDecision alive authorization proof = .ok () →
      authorization.sequence < 2 ^ 64 ∧ Drawn authorization.who.session.draw
  | _ => True

theorem Operation.perform_ships (operation : Operation) (indexes : before.Indexes)
    (bounded : operation.Bounded) (presents : Presents alive before operation) :
    Ships now before (operation.perform format limits alive now accepts before) := by
  cases operation with
  | recordIntent decision agentIntent => exact recordIntent_ships decision agentIntent indexes bounded
  | recordApproval intended grant => exact recordApproval_ships intended grant indexes bounded
  | recordAnswer answer =>
    obtain ⟨session, fits, drawn, stating⟩ := bounded
    exact .of_plain indexes session ⟨fits, drawn, stating.bounded⟩
  | recordOutcome outcome => exact recordOutcome_ships outcome indexes bounded presents
  | recordEvaluation artifact => exact recordEvaluation_ships artifact indexes bounded
  | recordSessionOpened session => exact .of_plain indexes bounded session.purpose.accepted
  | recordCancellation run authorized proof =>
    exact recordCancellation_ships run authorized proof indexes bounded presents
  | recordSessionClosed session => exact .of_plain indexes bounded trivial
  | recordSessionTerminated session operator => exact .of_plain indexes bounded trivial
  | sealBefore sequence =>
    have makes : MakesRoom format alive before (before.sealBefore format alive sequence) :=
      Relation.ReflTransGen.tail (State.sealEach_makes _ _ _) (.prune _)
    exact ⟨State.MakesRoom.indexes makes indexes, fun _ _ is => by cases is⟩
  | reclaim =>
    have left := State.reclaim_left format limits alive now before
    unfold Operation.perform
    cases reclaimed : before.reclaim format limits alive now with
    | error refused => exact State.MakesRoom.indexes (left.of_error reclaimed) indexes
    | ok after =>
      exact ⟨State.MakesRoom.indexes (left.of_ok reclaimed) indexes, fun _ _ is => by cases is⟩
  | drop sequence => exact ⟨indexes, fun _ _ is => by cases is⟩

/-! ## What a record keeps to -/

namespace Record

variable {record next : Record}

/-- What has been committed, minted and kept for evaluation is within bounds. -/
structure Attests (record : Record) : Prop where
  committed : ∀ entry ∈ record.committed, ∃ now < 2 ^ 64, Attested now entry
  minted : Minted record.minted
  indexes : record.state.Indexes

theorem Attests.presents (attests : record.Attests) {operation : Operation}
    (offers : record.Offers operation) : Presents record.alive record.state operation := by
  cases operation with
  | recordOutcome outcome => exact fun own => attests.minted _ (minted_of_own offers own)
  | recordCancellation run authorized proof =>
    exact fun own => attests.minted _ (minted_of_own offers own)
  | _ => trivial

theorem Attests.ships (attests : record.Attests) {operation : Operation}
    (offers : record.Offers operation) (bounded : operation.Bounded) :
    Ships now record.state
      (operation.perform format limits record.alive now accepts record.state) :=
  operation.perform_ships attests.indexes bounded (attests.presents offers)

/-- What an operation commits is an entry within bounds. -/
theorem Attests.adds (attests : record.Attests) {operation : Operation} {entry : Entry}
    (offers : record.Offers operation) (bounded : operation.Bounded)
    (grown : (record.perform format limits operation now accepts).committed =
      record.committed ++ [entry]) : Attested now entry := by
  have ships : Ships now record.state
      (operation.perform format limits record.alive now accepts record.state) :=
    attests.ships offers bounded
  unfold perform at grown
  cases result : operation.perform format limits record.alive now accepts record.state with
  | error refused =>
    rw [result] at grown
    simp at grown
  | ok made =>
    rw [result] at grown ships
    have added := List.append_cancel_left grown
    split at added
    · cases added
    · rename_i issued
      exact ships.2 issued entry (Option.mem_toList.mp (added ▸ List.mem_singleton_self entry))

theorem Attests.keeps (attests : record.Attests) {operation : Operation}
    (offers : record.Offers operation) (bounded : operation.Bounded) :
    (record.perform format limits operation now accepts).state.Indexes := by
  have ships : Ships now record.state
      (operation.perform format limits record.alive now accepts record.state) :=
    attests.ships offers bounded
  unfold perform
  cases result : operation.perform format limits record.alive now accepts record.state with
  | error refused =>
    rw [result] at ships
    exact ships
  | ok made =>
    rw [result] at ships
    exact ships.1

theorem Attests.new (genesis : Digest) : (Record.new genesis).Attests := by
  constructor
  · intro entry member
    cases member
  · intro authorized member
    cases member
  · intro kept listed
    cases listed

/-- **Step.** An operation keeps a record within bounds. -/
theorem Attests.performs (attests : record.Attests) {operation : Operation}
    (offers : record.Offers operation) (bounded : operation.Bounded) (time : now < 2 ^ 64) :
    (record.perform format limits operation now accepts).Attests := by
  have indexes : (record.perform format limits operation now accepts).state.Indexes :=
    attests.keeps offers bounded
  cases perform_moves format limits record operation now accepts with
  | quiet makes committed minted dropped =>
    exact ⟨committed ▸ attests.committed, minted ▸ attests.minted, indexes⟩
  | @commits who event ready readable written accepted commits committed minted dropped =>
    have draft := attests.adds offers bounded committed
    refine ⟨?_, ?_, indexes⟩
    · intro entry member
      rw [committed, List.mem_append, List.mem_singleton] at member
      cases member with
      | inl earlier => exact attests.committed entry earlier
      | inr last => exact last ▸ ⟨now, time, draft⟩
    · intro authorized member
      rw [minted] at member
      cases List.mem_append.mp member with
      | inl fresh =>
        split at fresh
        · cases List.mem_singleton.mp fresh
          have total := commits.total
          have fits : maxCount < 2 ^ 64 := by decide
          exact ⟨Nat.lt_of_lt_of_le (Nat.lt_of_succ_le total) (Nat.le_of_lt fits), draft.session⟩
        · cases fresh
      | inr earlier => exact attests.minted authorized earlier

end Record

end McpSsh.Ledger
