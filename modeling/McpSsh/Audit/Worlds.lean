import McpSsh.Audit.Record

/-!
# What a record's operations do

Each operation either only makes room, or makes room, commits one entry and
notes what follows from it. On a record that stands for what was committed this
keeps it standing, so everything a `Represents` says holds in every world of
one record.
-/

namespace McpSsh.Ledger

open Relation State

variable {format : Format} {limits : Limits} {alive : Nat → Bool} {now : Nat} {accepts : Bool}
variable {genesis : Digest} {committed : List Entry} {before after state : State}

/-! ## Making room on a represented state -/

theorem Represents.discards (rep : Represents format genesis committed before)
    (step : Discards format alive before after) : Represents format genesis committed after := by
  cases step with
  | sealAt done =>
    obtain ⟨other, same, rep', -⟩ := rep.sealAt (within_of_check (sealAt_spec done).1)
    rw [done] at same
    cases same
    exact rep'
  | retireFront done =>
    obtain ⟨held, -, entries, -⟩ := retireFront_spec done
    obtain ⟨other, same, rep', -⟩ := rep.retireFront (by rw [entries]; exact Nat.succ_pos _)
    rw [done] at same
    cases same
    exact rep'
  | prune => exact (rep.pruneIndexes alive).1

theorem Represents.makesRoom (rep : Represents format genesis committed before)
    (room : MakesRoom format alive before after) : Represents format genesis committed after := by
  induction room with
  | refl => exact rep
  | tail _ step ih => exact ih.discards step

theorem State.Discards.kept (step : Discards format alive before after) : Kept alive before after := by
  cases step with
  | sealAt done =>
    obtain ⟨-, issued, proofs, -⟩ := sealAt_spec done
    exact Kept.of_proofs_eq (by rw [issued]) proofs
  | retireFront done =>
    obtain ⟨held, -, -, issued, proofs, -⟩ := retireFront_spec done
    exact Kept.of_proofs_eq (by rw [issued]) proofs
  | prune =>
    exact ⟨rfl, fun _ member => List.mem_of_mem_filter member,
      fun _ member live => List.mem_filter.mpr ⟨member, live⟩⟩

theorem State.MakesRoom.kept (room : MakesRoom format alive before after) :
    Kept alive before after := by
  induction room with
  | refl => exact Kept.refl _
  | tail _ step ih => exact ih.trans step.kept

/-! ## What an operation commits -/

/-- Two states that differ only in what the evaluations index. -/
structure State.Unmoved (before after : State) : Prop where
  entries : after.entries = before.entries
  issued : after.issued = before.issued
  proofs : after.proofs = before.proofs
  readable : after.readableBytes = before.readableBytes
  sizes : after.sizes = before.sizes

/-- What an operation does once its entry is committed: it indexes it, or sets
the replay guard of the authorization whose completion it was. -/
inductive Finishes (alive : Nat → Bool) (before : State) (operation : Operation)
    (who : Attribution) (event : Event) (appended : State) : State → Prop
  | indexed {after : State} (unmoved : State.Unmoved appended after)
      (other : ∀ what, event ≠ .completed what) :
      Finishes alive before operation who event appended after
  | completed (outcome : Outcome) (asked : operation = .recordOutcome outcome)
      (settled : outcome.stillRunning = false)
      (own : before.thisRecordsDecision alive outcome.authorization outcome.proof = .ok ())
      (clear : before.isCompleted outcome.authorization.sequence = false)
      (attributed : who = outcome.authorization.who) (written : event = outcome.event) :
      Finishes alive before operation who event appended
        (appended.complete outcome.authorization.sequence)

/-- A state that has room with the entry another one drafted. -/
def State.committing (format : Format) (now : Nat) (before : State) (who : Attribution)
    (event : Event) (ready : State) (readable : Bool) : State :=
  ready.commit (before.draft format now who event)
    ⟨format.encodedBytes (before.draft format now who event), readable⟩ event.pins

/-- An operation that made room and committed one entry. -/
structure Commits (format : Format) (limits : Limits) (alive : Nat → Bool) (now : Nat)
    (before : State) (operation : Operation) (who : Attribution) (event : Event) (ready : State)
    (readable : Bool) (after : State) (written : Written) : Prop where
  makes : MakesRoom format alive before ready
  aligned : before.aligned = true
  total : before.issued.total + 1 ≤ maxCount
  room : Room limits ready ⟨format.encodedBytes (before.draft format now who event), readable⟩
    event.pins
  finishes : Finishes alive before operation who event
    (State.committing format now before who event ready readable) after
  entry : written.entry = some (before.draft format now who event)
  minted : written.authorization =
    if event.allowsRun then some (before.draft format now who event).authorization else none

/-- What came of an operation: it only made room, or it committed one entry. -/
inductive Did (format : Format) (limits : Limits) (alive : Nat → Bool) (now : Nat) (accepts : Bool)
    (before : State) (operation : Operation) : Except Refused (State × Written) → Prop
  | refused {error : AuditError} {after : State} (makes : MakesRoom format alive before after) :
      Did format limits alive now accepts before operation (.error (error, after))
  | quiet {after : State} {written : Written} (makes : MakesRoom format alive before after)
      (minted : written.authorization = none) :
      Did format limits alive now accepts before operation (.ok (after, written))
  | committed {who : Attribution} {event : Event} {ready after : State} {readable : Bool}
      {written : Written} (accepted : accepts = true)
      (commits : Commits format limits alive now before operation who event ready readable after
        written) :
      Did format limits alive now accepts before operation (.ok (after, written))

/-- An operation that is one append and what follows from it. -/
theorem Did.of_append {operation : Operation} (who : Attribution) (event : Event)
    (next : State × Entry → State × Written)
    (finishes : ∀ ready readable, Finishes alive before operation who event
      (State.committing format now before who event ready readable)
      (next (State.committing format now before who event ready readable,
        before.draft format now who event)).1)
    (entry : ∀ appended, (next (appended, before.draft format now who event)).2.entry =
      some (before.draft format now who event))
    (minted : ∀ appended, (next (appended, before.draft format now who event)).2.authorization =
      if event.allowsRun then some (before.draft format now who event).authorization else none) :
    Did format limits alive now accepts before operation
      ((before.append format limits alive now accepts who event).map next) := by
  rcases before.append_cases format limits alive now accepts who event with
    ⟨error, after, failed, makes⟩ |
    ⟨ready, readable, appended, accepted, makes, total, aligned, room⟩
  · rw [failed]
    exact .refused makes
  · rw [appended]
    exact .committed accepted ⟨makes, aligned, total, room, finishes ready readable, entry _,
      minted _⟩

/-- One whose entry authorizes nothing and completes nothing. -/
theorem Did.of_plain {operation : Operation} (who : Attribution) (event : Event)
    (quiet : event.allowsRun = false) (other : ∀ what, event ≠ .completed what) :
    Did format limits alive now accepts before operation
      ((before.append format limits alive now accepts who event).map (Prod.map id Written.of)) :=
  Did.of_append who event _ (fun _ _ => .indexed ⟨rfl, rfl, rfl, rfl, rfl⟩ other) (fun _ => rfl)
    (fun _ => by simp [quiet, Written.of])

/-! ## Each operation -/

theorem State.indexDecision_unmoved (state : State) (entry : Entry) (decision : Decision)
    (agentIntent : CommandIntent) :
    State.Unmoved state (state.indexDecision entry decision agentIntent) := by
  unfold State.indexDecision
  split <;> exact ⟨rfl, rfl, rfl, rfl, rfl⟩

theorem decidedEvent_allowsRun (decision : Decision) (agentIntent : CommandIntent) :
    (decidedEvent decision agentIntent).allowsRun = true ↔ decision.verdict = .permit := by
  simp [decidedEvent, Event.allowsRun]

theorem recordIntent_did (decision : Decision) (agentIntent : CommandIntent) (before : State) :
    Did format limits alive now accepts before (.recordIntent decision agentIntent)
      ((Operation.recordIntent decision agentIntent).perform format limits alive now accepts
        before) := by
  have same : (Operation.recordIntent decision agentIntent).perform format limits alive now accepts
        before =
      (before.append format limits alive now accepts decision.session.attribution
        (decidedEvent decision agentIntent)).map (fun made =>
          (made.1.indexDecision made.2 decision agentIntent,
            ⟨some made.2, (if decision.verdict = .permit then
              some (receiptFor made.2 decision.session decision.action) else none).map
                Receipt.authorization⟩)) := by
    simp only [Operation.perform, State.recordIntent, bind, Except.bind, pure, Except.pure]
    cases before.append format limits alive now accepts decision.session.attribution
      (decidedEvent decision agentIntent) <;> rfl
  rw [same]
  refine Did.of_append _ _ _ (fun _ _ => .indexed (State.indexDecision_unmoved _ _ _ _)
    (fun _ same => by cases same)) (fun _ => rfl) (fun _ => ?_)
  simp only [decidedEvent_allowsRun]
  split <;> rfl

theorem recordApproval_did (intended : Intended) (grant : Grant) (before : State) :
    Did format limits alive now accepts before (.recordApproval intended grant)
      ((Operation.recordApproval intended grant).perform format limits alive now accepts
        before) := by
  have same : (Operation.recordApproval intended grant).perform format limits alive now accepts
        before =
      (before.append format limits alive now accepts intended.decision.session.attribution
        grant.event).map (fun made => (made.1, ⟨some made.2, some
          (receiptFor made.2 intended.decision.session
            intended.decision.action).authorization⟩)) := by
    simp only [Operation.perform, State.recordApproval, bind, Except.bind, pure, Except.pure]
    cases before.append format limits alive now accepts intended.decision.session.attribution
      grant.event <;> rfl
  rw [same]
  exact Did.of_append _ _ _ (fun _ _ => .indexed ⟨rfl, rfl, rfl, rfl, rfl⟩
    (fun _ same => by cases same)) (fun _ => rfl) (fun _ => rfl)

theorem recordOutcome_did (outcome : Outcome) (before : State) :
    Did format limits alive now accepts before (.recordOutcome outcome)
      ((Operation.recordOutcome outcome).perform format limits alive now accepts before) := by
  simp only [Operation.perform, State.recordOutcome, bind, Except.bind, pure, Except.pure, throw,
    throwThe, MonadExceptOf.throw]
  split
  · exact .refused .refl
  rename_i settled
  split
  · exact .refused .refl
  rename_i own
  split
  · exact .refused .refl
  rename_i clear
  have did : Did format limits alive now accepts before (.recordOutcome outcome)
      ((before.append format limits alive now accepts outcome.authorization.who outcome.event).map
        (fun made =>
          (made.1.complete outcome.authorization.sequence, Written.of made.2))) :=
    Did.of_append _ _ _ (fun _ _ => .completed outcome rfl (by simpa using settled) own
      (by simpa using clear) rfl rfl) (fun _ => rfl) (fun _ => rfl)
  cases appended : before.append format limits alive now accepts outcome.authorization.who
    outcome.event with
  | error refused =>
    rw [appended] at did
    exact did
  | ok written =>
    rw [appended] at did
    exact did

theorem recordCancellation_did (run : RunId) (authorized : Authorization) (proof : Option Nat)
    (before : State) :
    Did format limits alive now accepts before (.recordCancellation run authorized proof)
      ((Operation.recordCancellation run authorized proof).perform format limits alive now accepts
        before) := by
  simp only [Operation.perform, State.recordCancellation]
  split
  · exact .refused .refl
  · exact Did.of_plain _ _ rfl (fun _ same => by cases same)

/-- What an operation does after a part that only made room. -/
theorem Did.following {middle : State} {operation : Operation}
    {result : Except Refused (State × Written)} (makes : MakesRoom format alive before middle)
    (aligned : before.aligned = true) (other : ∀ outcome, operation ≠ .recordOutcome outcome)
    (did : Did format limits alive now accepts middle operation result) :
    Did format limits alive now accepts before operation result := by
  have same := makes.shrinks.draft format now
  cases did with
  | refused rest => exact .refused (makes.trans rest)
  | quiet rest minted => exact .quiet (makes.trans rest) minted
  | @committed who event ready after readable written accepted commits =>
    refine Did.committed accepted
      (⟨makes.trans commits.makes, aligned, ?_, ?_, ?_, ?_, ?_⟩ :
        Commits format limits alive now before operation who event ready readable after written)
    · rw [← makes.shrinks.total]
      exact commits.total
    · rw [← same]
      exact commits.room
    · have finishes := commits.finishes
      unfold State.committing at finishes ⊢
      rw [same] at finishes
      cases finishes with
      | indexed unmoved plain => exact .indexed unmoved plain
      | completed outcome asked => exact absurd asked (other outcome)
    · rw [← same]
      exact commits.entry
    · rw [← same]
      exact commits.minted

theorem recordEvaluation_did (artifact : EvaluationArtifact) (before : State) :
    Did format limits alive now accepts before (.recordEvaluation artifact)
      ((Operation.recordEvaluation artifact).perform format limits alive now accepts before) := by
  simp only [Operation.perform, State.recordEvaluation, bind, Except.bind, pure, Except.pure, throw,
    throwThe, MonadExceptOf.throw]
  have left := State.reclaim_left format limits alive now before
  cases reclaimed : before.reclaim format limits alive now with
  | error refused => exact .refused (left.of_error reclaimed)
  | ok middle =>
    have makes := left.of_ok reclaimed
    refine Did.following makes (State.reclaim_aligned reclaimed) (fun _ same => by cases same) ?_
    simp only
    split
    · split
      · exact .quiet .refl rfl
      · exact .refused .refl
    split
    · exact .refused .refl
    split
    · exact .refused .refl
    split
    · exact .refused .refl
    rename_i decision _
    have did : Did format limits alive now accepts middle (.recordEvaluation artifact)
        ((middle.append format limits alive now accepts decision.attribution
          (State.evaluatedEvent artifact decision)).map
            (fun made => (made.1.indexEvaluation artifact made.2, Written.of made.2))) :=
      Did.of_append _ _ _ (fun _ _ => .indexed ⟨rfl, rfl, rfl, rfl, rfl⟩
        (fun _ same => by cases same)) (fun _ => rfl) (fun _ => rfl)
    cases appended : middle.append format limits alive now accepts decision.attribution
      (State.evaluatedEvent artifact decision) with
    | error refused =>
      rw [appended] at did
      exact did
    | ok written =>
      rw [appended] at did
      exact did

theorem State.sealEach_makes (sequence : Nat) (indexes : List Nat) (state : State) :
    MakesRoom format alive state (state.sealEach format sequence indexes) := by
  induction indexes generalizing state with
  | nil => exact .refl
  | cons index rest ih =>
    unfold State.sealEach
    split
    · split
      · exact ih state
      · rename_i next done
        exact .head (.sealAt done) (ih next)
    · exact ih state

/-- **One operation.** It was refused or only made room, or it made room and
committed one entry. -/
theorem Operation.perform_did (format : Format) (limits : Limits) (alive : Nat → Bool) (now : Nat)
    (accepts : Bool) (before : State) (operation : Operation) :
    Did format limits alive now accepts before operation
      (operation.perform format limits alive now accepts before) := by
  cases operation with
  | recordIntent decision agentIntent => exact recordIntent_did decision agentIntent before
  | recordApproval intended grant => exact recordApproval_did intended grant before
  | recordAnswer answer => exact Did.of_plain _ _ rfl (fun _ same => by cases same)
  | recordOutcome outcome => exact recordOutcome_did outcome before
  | recordEvaluation artifact => exact recordEvaluation_did artifact before
  | recordSessionOpened session => exact Did.of_plain _ _ rfl (fun _ same => by cases same)
  | recordCancellation run authorized proof =>
    exact recordCancellation_did run authorized proof before
  | recordSessionClosed session => exact Did.of_plain _ _ rfl (fun _ same => by cases same)
  | recordSessionTerminated session operator =>
    exact Did.of_plain _ _ rfl (fun _ same => by cases same)
  | sealBefore sequence =>
    exact .quiet (ReflTransGen.tail (State.sealEach_makes _ _ _) (.prune _)) rfl
  | reclaim =>
    have left := State.reclaim_left format limits alive now before
    unfold Operation.perform
    cases reclaimed : before.reclaim format limits alive now with
    | error refused => exact .refused (left.of_error reclaimed)
    | ok after => exact .quiet (left.of_ok reclaimed) rfl
  | drop sequence => exact .quiet .refl rfl

/-! ## On a state that stands for what was committed -/

theorem Represents.unmoved (rep : Represents format genesis committed before)
    (unmoved : State.Unmoved before after) : Represents format genesis committed after where
  chained := rep.chained
  total := by rw [unmoved.issued]; exact rep.total
  bound := rep.bound
  window := by rw [unmoved.issued, unmoved.entries]; exact rep.window
  checkpoint := by rw [unmoved.issued]; exact rep.checkpoint
  shows := by rw [unmoved.issued, unmoved.entries]; exact rep.shows
  digests := by rw [unmoved.issued, unmoved.entries]; exact rep.digests
  sizes := by rw [unmoved.sizes, unmoved.entries]; exact rep.sizes
  readable := by rw [unmoved.readable, unmoved.sizes]; exact rep.readable
  proofs := by rw [unmoved.proofs]; exact rep.proofs
  keys := by rw [unmoved.proofs]; exact rep.keys

theorem State.complete_entries (state : State) (sequence : Nat) :
    (state.complete sequence).proofs.map Proof.entry = state.proofs.map Proof.entry := by
  simp only [State.complete, List.map_map]
  refine List.map_congr_left fun proof _ => ?_
  simp only [Function.comp]
  split <;> rfl

theorem State.complete_bytes (state : State) (sequence : Nat) :
    (state.complete sequence).proofs.map Proof.bytes = state.proofs.map Proof.bytes := by
  simp only [State.complete, List.map_map]
  refine List.map_congr_left fun proof _ => ?_
  simp only [Function.comp]
  split <;> rfl

/-- Setting a replay guard changes no proof but for its guard. -/
theorem State.mem_complete {sequence : Nat} {proof : Proof} :
    proof ∈ (state.complete sequence).proofs ↔ ∃ old ∈ state.proofs, proof = { old with
      completed := old.completed || decide (old.entry.sequence = sequence) } := by
  simp only [State.complete, List.mem_map]
  constructor
  · rintro ⟨old, member, rfl⟩
    refine ⟨old, member, ?_⟩
    split <;> simp_all
  · rintro ⟨old, member, rfl⟩
    refine ⟨old, member, ?_⟩
    split <;> simp_all

theorem Represents.complete (rep : Represents format genesis committed state) (sequence : Nat) :
    Represents format genesis committed (state.complete sequence) :=
  { rep with
    proofs := by
      intro proof member
      obtain ⟨old, held, rfl⟩ := State.mem_complete.mp member
      exact rep.proofs old held
    keys := by
      have same := congrArg (List.map Entry.sequence) (state.complete_entries sequence)
      rw [List.map_map, List.map_map] at same
      change (((state.complete sequence).proofs.map (Entry.sequence ∘ Proof.entry))).Nodup
      rw [same]
      exact rep.keys }

theorem Finishes.proof_entries {operation : Operation} {who : Attribution} {event : Event}
    {appended : State} (finishes : Finishes alive before operation who event appended after) :
    after.proofs.map Proof.entry = appended.proofs.map Proof.entry := by
  cases finishes with
  | indexed unmoved => rw [unmoved.proofs]
  | completed => exact State.complete_entries _ _

theorem Finishes.proof_bytes {operation : Operation} {who : Attribution} {event : Event}
    {appended : State} (finishes : Finishes alive before operation who event appended after) :
    after.proofs.map Proof.bytes = appended.proofs.map Proof.bytes := by
  cases finishes with
  | indexed unmoved => rw [unmoved.proofs]
  | completed => exact State.complete_bytes _ _

theorem Represents.finishes {operation : Operation} {who : Attribution} {event : Event}
    {appended : State} (rep : Represents format genesis committed appended)
    (finishes : Finishes alive before operation who event appended after) :
    Represents format genesis committed after := by
  cases finishes with
  | indexed unmoved => exact rep.unmoved unmoved
  | completed => exact rep.complete _

/-! ## Each step of a record -/

theorem Finishes.issued {operation : Operation} {who : Attribution} {event : Event}
    {appended : State} (finishes : Finishes alive before operation who event appended after) :
    after.issued = appended.issued := by
  cases finishes with
  | indexed unmoved => exact unmoved.issued
  | completed => rfl

theorem Commits.issued {operation : Operation} {who : Attribution} {event : Event} {ready : State}
    {readable : Bool} {written : Written}
    (commits : Commits format limits alive now before operation who event ready readable after
      written) :
    after.issued.total = before.issued.total + 1 := by
  rw [commits.finishes.issued, ← commits.makes.shrinks.total]
  rfl

namespace Record

variable {record next : Record} {operation : Operation}

/-- What a step of a record does: nothing but making room, or one entry. -/
inductive Moves (format : Format) (limits : Limits) (now : Nat) (accepts : Bool) (record : Record)
    (operation : Operation) (next : Record) : Prop
  | quiet (makes : MakesRoom format record.alive record.state next.state)
      (committed : next.committed = record.committed) (minted : next.minted = record.minted)
      (dropped : ∀ sequence, next.alive sequence = true → record.alive sequence = true)
  | commits {who : Attribution} {event : Event} {ready : State} {readable : Bool}
      {written : Written} (accepted : accepts = true)
      (commits : Commits format limits record.alive now record.state operation who event ready
        readable next.state written)
      (committed : next.committed = record.committed ++ [record.state.draft format now who event])
      (minted : next.minted =
        (if event.allowsRun then [(record.state.draft format now who event).authorization] else []) ++
          record.minted)
      (dropped : next.dropped = record.dropped)

theorem perform_moves (format : Format) (limits : Limits) (record : Record) (operation : Operation)
    (now : Nat) (accepts : Bool) :
    Moves format limits now accepts record operation
      (record.perform format limits operation now accepts) := by
  have did := operation.perform_did format limits record.alive now accepts record.state
  unfold perform
  cases result : operation.perform format limits record.alive now accepts record.state with
  | error refused =>
    rw [result] at did
    cases did with
    | refused makes => exact .quiet makes rfl rfl (fun _ live => live)
  | ok written =>
    rw [result] at did
    cases did with
    | quiet makes minted =>
      refine .quiet makes ?_ ?_ ?_
      · simp only [if_pos makes.shrinks.total, List.append_nil]
      · simp only [minted, Option.toList_none, List.nil_append]
      · intro sequence live
        simp only [alive, decide_eq_true_eq] at live ⊢
        cases operation with
        | drop other => exact fun dropped => live (List.mem_cons_of_mem _ dropped)
        | _ => exact live
    | committed accepted commits =>
      refine .commits accepted commits ?_ ?_ ?_
      · have grown := Nat.lt_of_lt_of_eq (Nat.lt_succ_self _) commits.issued.symm
        simp only [if_neg (Nat.ne_of_gt grown), commits.entry, Option.toList_some]
      · simp only [commits.minted]
        split <;> rfl
      · cases operation with
        | drop other =>
          cases result
          have total := commits.issued
          omega
        | _ => rfl

/-- A step takes nothing back. -/
theorem Moves.committed_prefix (moves : Moves format limits now accepts record operation next) :
    record.committed <+: next.committed := by
  cases moves with
  | quiet _ committed => exact committed ▸ List.prefix_rfl
  | commits _ _ committed =>
    rw [committed]
    exact List.prefix_append _ _

theorem Moves.minted_subset (moves : Moves format limits now accepts record operation next) :
    record.minted ⊆ next.minted := by
  cases moves with
  | quiet _ _ minted => rw [minted]; exact List.Subset.refl _
  | commits _ _ _ minted =>
    rw [minted]
    exact List.subset_append_right _ _

/-- Only an outcome is recorded as a completion. -/
theorem Moves.not_completed (moves : Moves format limits now accepts record operation next)
    (other : ∀ outcome, operation ≠ .recordOutcome outcome) {entry : Entry}
    (member : entry ∈ next.committed) {what : Completed} (event : entry.event = .completed what) :
    entry ∈ record.committed := by
  cases moves with
  | quiet _ committed => rwa [committed] at member
  | commits _ commits committed =>
    rw [committed] at member
    rcases List.mem_append.mp member with old | new
    · exact old
    · obtain rfl := List.mem_singleton.mp new
      have finishes := commits.finishes
      generalize next.state = after at finishes
      cases finishes with
      | indexed _ plain => exact absurd event (plain what)
      | completed outcome asked => exact absurd asked (other outcome)

/-- A step keeps a record standing for what it committed. -/
theorem Moves.represents (moves : Moves format limits now accepts record operation next)
    (rep : Represents format genesis record.committed record.state) :
    Represents format genesis next.committed next.state := by
  cases moves with
  | quiet makes committed =>
    rw [committed]
    exact rep.makesRoom makes
  | commits accepted commits committed =>
    rw [committed]
    have bound := commits.total
    rw [rep.total] at bound
    exact ((rep.makesRoom commits.makes).commit _ bound (rep.chained_draft _ _)).finishes
      commits.finishes

/-- Everything that is true of a new record and that every step keeps is true
of each record reached. -/
theorem Later.keeps {holds : Record → Prop} {later : Record}
    (keeps : ∀ record next operation now accepts, holds record → record.Offers operation →
      Moves format limits now accepts record operation next → holds next)
    (run : Later format limits record later) (start : holds record) : holds later := by
  induction run with
  | refl => exact start
  | tail _ step ih =>
    obtain ⟨operation, now, accepts, offers, rfl⟩ := step
    exact keeps _ _ _ _ _ ih offers (perform_moves format limits _ operation now accepts)

/-- A reachable record stands for what it committed. -/
theorem Reachable.represents (reached : Reachable format limits genesis record) :
    Represents format genesis record.committed record.state :=
  Later.keeps (fun _ _ _ _ _ rep _ moves => moves.represents rep) reached
    (Represents.new format genesis)

end Record

end McpSsh.Ledger
