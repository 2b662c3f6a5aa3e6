import McpSsh.Audit.Worlds
import Mathlib.Data.List.Nodup

/-!
# Evaluations

What `record_evaluation` keeps in step: the identifiers and the decisions that
were ever evaluated, and the entries of those that can still be read. An
identifier and a decision are taken for good; an entry is forgotten as soon as
its content cannot be read.
-/

namespace McpSsh

/-- What an entry records of an evaluation. -/
def Entry.artifact (entry : Entry) : Option EvaluationArtifact :=
  match entry.event with
  | .evaluated what => some what.artifact
  | _ => none

/-- The test by which the entry of an evaluation is found again. -/
theorem Entry.artifact_iff {entry : Entry} {artifact : EvaluationArtifact} :
    (match entry.event with
      | .evaluated what => decide (what.artifact = artifact)
      | _ => false) = true ↔ entry.artifact = some artifact := by
  unfold Entry.artifact
  cases entry.event <;> simp

namespace Ledger

open Relation State

variable {format : Format} {limits : Limits} {alive : Nat → Bool} {now : Nat} {accepts : Bool}
variable {genesis : Digest} {committed : List Entry} {before after state : State}
variable {artifact : EvaluationArtifact}

/-! ## What making room sheds -/

/-- What is not readable does not become so. -/
theorem State.Discards.readable (step : Discards format alive before after) {sequence : Nat}
    (readable : after.readable sequence = true) : before.readable sequence = true := by
  unfold State.readable State.get at readable ⊢
  cases step with
  | sealAt done =>
    obtain ⟨-, issued, -, -, rfl | ⟨held, found, entries⟩⟩ := sealAt_spec done
    · exact readable
    · rw [issued, entries] at readable
      split
      case isFalse retired =>
        rw [if_neg retired] at readable
        exact nomatch readable
      case isTrue kept =>
        rw [if_pos kept, List.getElem?_set] at readable
        split at readable
        · split at readable
          · exact nomatch readable
          · exact nomatch readable
        · exact readable
  | retireFront done =>
    obtain ⟨held, -, entries, issued, -⟩ := retireFront_spec done
    rw [issued] at readable
    dsimp only at readable
    split at readable
    case isFalse => exact nomatch readable
    case isTrue kept =>
      rw [if_pos (Nat.le_of_succ_le kept), entries]
      obtain ⟨place, rfl⟩ := Nat.exists_eq_add_of_le kept
      rw [Nat.add_sub_cancel_left] at readable
      rw [Nat.add_assoc, Nat.add_sub_cancel_left, Nat.add_comm, List.getElem?_cons_succ]
      exact readable
  | prune => exact readable

/-- What a state no longer indexes. The identifiers and the decisions stay
taken, and the entries that can be read stay found. -/
structure State.Sheds (before after : State) : Prop where
  ids : after.evaluations.issuedIds = before.evaluations.issuedIds
  decisions : after.evaluations.evaluatedDecisions = before.evaluations.evaluatedDecisions
  artifacts : ∃ keeps : String × Entry → Bool,
    after.evaluations.readableArtifacts = before.evaluations.readableArtifacts.filter keeps ∧
      ∀ indexed, after.readable indexed.2.sequence = true → keeps indexed = true
  readable : ∀ sequence, after.readable sequence = true → before.readable sequence = true

theorem State.Sheds.refl (state : State) : State.Sheds state state where
  ids := rfl
  decisions := rfl
  artifacts := ⟨fun _ => true, (List.filter_eq_self.mpr fun _ _ => rfl).symm, fun _ _ => rfl⟩
  readable _ := id

theorem State.Sheds.trans {a b c : State} (first : State.Sheds a b) (second : State.Sheds b c) :
    State.Sheds a c := by
  obtain ⟨keeps, left, kept⟩ := first.artifacts
  obtain ⟨keeps', left', kept'⟩ := second.artifacts
  refine ⟨second.ids.trans first.ids, second.decisions.trans first.decisions, ?_,
    fun sequence => first.readable sequence ∘ second.readable sequence⟩
  refine ⟨fun indexed => keeps indexed && keeps' indexed, ?_, ?_⟩
  · rw [left', left, List.filter_filter]
    apply List.filter_congr
    intro indexed _
    exact Bool.and_comm _ _
  · intro indexed readable
    exact Bool.and_eq_true_iff.mpr
      ⟨kept indexed (second.readable _ readable), kept' indexed readable⟩

theorem State.Discards.sheds (step : Discards format alive before after) :
    State.Sheds before after := by
  have readable : ∀ sequence, after.readable sequence = true → before.readable sequence = true :=
    fun sequence => step.readable
  have same (unmoved : after.evaluations = before.evaluations) : State.Sheds before after := by
    refine ⟨by rw [unmoved], by rw [unmoved], ?_, readable⟩
    exact ⟨fun _ => true, by rw [unmoved, List.filter_eq_self.mpr fun _ _ => rfl], fun _ _ => rfl⟩
  cases step with
  | sealAt done =>
    apply same
    unfold State.sealAt at done
    split at done
    · split at done <;> cases done <;> rfl
    · exact nomatch done
  | retireFront done =>
    apply same
    unfold State.retireFront at done
    split at done
    · split at done
      · split at done <;> cases done
        rfl
      · exact nomatch done
    · exact nomatch done
  | prune => exact ⟨rfl, rfl, ⟨_, rfl, fun _ => id⟩, readable⟩

theorem State.MakesRoom.sheds (room : MakesRoom format alive before after) :
    State.Sheds before after := by
  induction room with
  | refl => exact .refl _
  | tail _ step ih => exact ih.trans step.sheds

/-- The proofs that are still referenced are left alone. -/
theorem State.MakesRoom.live (room : MakesRoom format alive before after) :
    after.proofs.filter (fun proof => alive proof.entry.sequence) =
      before.proofs.filter (fun proof => alive proof.entry.sequence) := by
  induction room with
  | refl => rfl
  | tail _ step ih =>
    rw [← ih]
    cases step with
    | sealAt done =>
      obtain ⟨-, -, proofs, -⟩ := sealAt_spec done
      rw [proofs]
    | retireFront done =>
      obtain ⟨held, -, -, -, proofs, -⟩ := retireFront_spec done
      rw [proofs]
    | prune =>
      change (List.filter _ (List.filter _ _)) = _
      rw [List.filter_filter]
      apply List.filter_congr
      intro proof _
      exact Bool.and_self _

/-! ## What a commit leaves -/

/-- A commit changes nothing of what was readable before. -/
theorem State.commit_readable (window : state.issued.retired + state.entries.length = state.issued.total)
    (entry : Entry) (prepared : Prepared) (pin : Bool) {sequence : Nat}
    (old : sequence < state.issued.total) :
    (state.commit entry prepared pin).readable sequence = state.readable sequence := by
  unfold State.readable State.get State.commit
  dsimp only
  split
  case isFalse => rfl
  case isTrue kept => rw [List.getElem?_append_left (by omega)]

/-- A state after an operation that evaluates nothing. -/
structure State.Overlooks (before after : State) : Prop where
  ids : after.evaluations.issuedIds = before.evaluations.issuedIds
  decisions : after.evaluations.evaluatedDecisions = before.evaluations.evaluatedDecisions
  artifacts : ∃ keeps : String × Entry → Bool,
    after.evaluations.readableArtifacts = before.evaluations.readableArtifacts.filter keeps ∧
      ∀ indexed, indexed.2.sequence < before.issued.total →
        after.readable indexed.2.sequence = true → keeps indexed = true
  readable : ∀ sequence, sequence < before.issued.total →
    after.readable sequence = true → before.readable sequence = true

theorem State.Sheds.overlooks (sheds : State.Sheds before after) : State.Overlooks before after := by
  obtain ⟨keeps, left, kept⟩ := sheds.artifacts
  exact ⟨sheds.ids, sheds.decisions, ⟨keeps, left, fun indexed _ => kept indexed⟩,
    fun sequence _ => sheds.readable sequence⟩

/-- Room, a commit, and something that touches neither the window nor the
evaluations. -/
theorem State.Overlooks.of_commit {ready : State} (makes : MakesRoom format alive before ready)
    (window : ready.issued.retired + ready.entries.length = ready.issued.total) (entry : Entry)
    (prepared : Prepared) (pin : Bool)
    (ids : after.evaluations.issuedIds = ready.evaluations.issuedIds)
    (decisions : after.evaluations.evaluatedDecisions = ready.evaluations.evaluatedDecisions)
    (artifacts : after.evaluations.readableArtifacts = ready.evaluations.readableArtifacts)
    (readable : ∀ sequence, after.readable sequence =
      (ready.commit entry prepared pin).readable sequence) :
    State.Overlooks before after := by
  have sheds := makes.sheds
  have total := makes.shrinks.total
  obtain ⟨keeps, left, kept⟩ := sheds.artifacts
  refine ⟨ids.trans sheds.ids, decisions.trans sheds.decisions, ?_, ?_⟩
  · refine ⟨keeps, artifacts.trans left, ?_⟩
    intro indexed old shown
    rw [readable, State.commit_readable window entry prepared pin (by omega)] at shown
    exact kept indexed shown
  · intro sequence old shown
    rw [readable, State.commit_readable window entry prepared pin (by omega)] at shown
    exact sheds.readable sequence shown

/-- What comes of an operation that evaluates nothing. -/
def Ignores (before : State) : Except Refused (State × Written) → Prop
  | .error (_, after) => State.Overlooks before after
  | .ok (after, written) =>
    State.Overlooks before after ∧ ∀ entry, written.entry = some entry → entry.artifact = none

/-- One append, and something that touches neither the window nor the
evaluations. -/
theorem Ignores.of_append (rep : Represents format genesis committed before) (who : Attribution)
    {event : Event} (plain : (before.draft format now who event).artifact = none) (next : State × Entry → State × Written)
    (ids : ∀ state entry, (next (state, entry)).1.evaluations.issuedIds = state.evaluations.issuedIds)
    (decisions : ∀ state entry, (next (state, entry)).1.evaluations.evaluatedDecisions =
      state.evaluations.evaluatedDecisions)
    (artifacts : ∀ state entry, (next (state, entry)).1.evaluations.readableArtifacts =
      state.evaluations.readableArtifacts)
    (readable : ∀ state entry sequence,
      (next (state, entry)).1.readable sequence = state.readable sequence)
    (written : ∀ state entry, (next (state, entry)).2.entry = some entry) :
    Ignores before ((before.append format limits alive now accepts who event).map next) := by
  rcases before.append_cases format limits alive now accepts who event with
    ⟨error, after, failed, makes⟩ | ⟨ready, readable', appended, -, makes, -⟩
  · rw [failed]
    exact makes.sheds.overlooks
  · rw [appended]
    have rep' := rep.makesRoom makes
    have window : ready.issued.retired + ready.entries.length = ready.issued.total := by
      rw [rep'.window, rep'.total]
    refine ⟨?_, ?_⟩
    · exact .of_commit makes window _ _ _ (ids _ _) (decisions _ _) (artifacts _ _) (readable _ _)
    · intro entry same
      rw [written] at same
      cases same
      exact plain

/-- An append that is handed on as it is. -/
theorem Ignores.of_plain (rep : Represents format genesis committed before) (who : Attribution)
    {event : Event} (plain : (before.draft format now who event).artifact = none) :
    Ignores before
      ((before.append format limits alive now accepts who event).map (Prod.map id Written.of)) :=
  .of_append rep who plain _ (fun _ _ => rfl) (fun _ _ => rfl) (fun _ _ => rfl)
    (fun _ _ _ => rfl) (fun _ _ => rfl)

theorem Ignores.of_refl (error : AuditError) : Ignores before (.error (error, before)) :=
  (State.Sheds.refl before).overlooks

theorem recordIntent_ignores (rep : Represents format genesis committed before)
    (decision : Decision) (agentIntent : CommandIntent) :
    Ignores before
      ((Operation.recordIntent decision agentIntent).perform format limits alive now accepts before) := by
  have ignores : Ignores before
      ((before.append format limits alive now accepts decision.session.attribution
        (decidedEvent decision agentIntent)).map fun made =>
          (made.1.indexDecision made.2 decision agentIntent,
            ⟨some made.2, (if decision.verdict = .permit then
              some (receiptFor made.2 decision.session decision.action) else none).map
                Receipt.authorization⟩)) := by
    refine .of_append rep _ rfl _ ?_ ?_ ?_ ?_ (fun _ _ => rfl)
    all_goals
      intro state entry
      unfold State.indexDecision
      dsimp only
      split
    all_goals first | rfl | exact fun _ => rfl
  simp only [Operation.perform, State.recordIntent, bind, Except.bind, pure, Except.pure]
  cases appended : before.append format limits alive now accepts decision.session.attribution
      (decidedEvent decision agentIntent) with
  | error refused =>
    rw [appended] at ignores
    exact ignores
  | ok written =>
    rw [appended] at ignores
    exact ignores

theorem recordApproval_ignores (rep : Represents format genesis committed before)
    (intended : Intended) (grant : Grant) :
    Ignores before
      ((Operation.recordApproval intended grant).perform format limits alive now accepts before) := by
  have ignores : Ignores before
      ((before.append format limits alive now accepts intended.decision.session.attribution
        grant.event).map fun made => (made.1, ⟨some made.2, some
          (receiptFor made.2 intended.decision.session intended.decision.action).authorization⟩)) :=
    .of_append rep _ rfl _ (fun _ _ => rfl) (fun _ _ => rfl) (fun _ _ => rfl)
      (fun _ _ _ => rfl) (fun _ _ => rfl)
  simp only [Operation.perform, State.recordApproval, bind, Except.bind, pure, Except.pure]
  cases appended : before.append format limits alive now accepts
      intended.decision.session.attribution grant.event with
  | error refused =>
    rw [appended] at ignores
    exact ignores
  | ok written =>
    rw [appended] at ignores
    exact ignores

theorem recordOutcome_ignores (rep : Represents format genesis committed before)
    (outcome : Outcome) :
    Ignores before
      ((Operation.recordOutcome outcome).perform format limits alive now accepts before) := by
  have ignores : Ignores before
      ((before.append format limits alive now accepts outcome.authorization.who outcome.event).map
        fun made => (made.1.complete outcome.authorization.sequence, Written.of made.2)) :=
    .of_append rep _ rfl _ (fun _ _ => rfl) (fun _ _ => rfl) (fun _ _ => rfl)
      (fun _ _ _ => rfl) (fun _ _ => rfl)
  simp only [Operation.perform, State.recordOutcome, bind, Except.bind, pure, Except.pure, throw,
    throwThe, MonadExceptOf.throw]
  split
  · exact .of_refl _
  split
  · exact .of_refl _
  split
  · exact .of_refl _
  cases appended : before.append format limits alive now accepts outcome.authorization.who
      outcome.event with
  | error refused =>
    rw [appended] at ignores
    exact ignores
  | ok written =>
    rw [appended] at ignores
    exact ignores

/-- Every operation but one evaluates nothing. -/
theorem Operation.perform_ignores (rep : Represents format genesis committed before)
    {operation : Operation} (other : ∀ artifact, operation ≠ .recordEvaluation artifact) :
    Ignores before (operation.perform format limits alive now accepts before) := by
  cases operation with
  | recordIntent decision agentIntent => exact recordIntent_ignores rep decision agentIntent
  | recordApproval intended grant => exact recordApproval_ignores rep intended grant
  | recordAnswer answer => exact .of_plain rep _ rfl
  | recordOutcome outcome => exact recordOutcome_ignores rep outcome
  | recordEvaluation artifact => exact absurd rfl (other artifact)
  | recordSessionOpened session => exact .of_plain rep _ rfl
  | recordCancellation run authorized proof =>
    simp only [Operation.perform, State.recordCancellation]
    split
    · exact .of_refl _
    · exact .of_plain rep _ rfl
  | recordSessionClosed session => exact .of_plain rep _ rfl
  | recordSessionTerminated session operator => exact .of_plain rep _ rfl
  | sealBefore sequence =>
    have makes : MakesRoom format alive before (before.sealBefore format alive sequence) :=
      ReflTransGen.tail (State.sealEach_makes _ _ _) (.prune _)
    exact ⟨makes.sheds.overlooks, fun entry same => absurd same.symm (Option.some_ne_none entry)⟩
  | reclaim =>
    have left := State.reclaim_left format limits alive now before
    unfold Operation.perform
    cases reclaimed : before.reclaim format limits alive now with
    | error refused => exact (left.of_error reclaimed).sheds.overlooks
    | ok after =>
      exact ⟨(left.of_ok reclaimed).sheds.overlooks,
        fun entry same => absurd same.symm (Option.some_ne_none entry)⟩
  | drop sequence =>
    exact ⟨(State.Sheds.refl before).overlooks,
      fun entry same => absurd same.symm (Option.some_ne_none entry)⟩

/-! ## A submission -/

/-- What comes of a submission: the entry of one that was made before, a
refusal, or an entry of its own. -/
inductive Submitted (format : Format) (limits : Limits) (alive : Nat → Bool) (now : Nat)
    (before : State) (artifact : EvaluationArtifact) : Except Refused (State × Entry) → Prop
  | repeated {entry : Entry} {ready : State} (makes : MakesRoom format alive before ready)
      (known : artifact.evaluationId ∈ before.evaluations.issuedIds)
      (found : ready.evaluationOf artifact = some entry) :
      Submitted format limits alive now before artifact (.ok (ready, entry))
  | refused {error : AuditError} {after : State} (makes : MakesRoom format alive before after) :
      Submitted format limits alive now before artifact (.error (error, after))
  | accepted {ready : State} {readable : Bool} {decision : ReadableDecision} {entry : Entry}
      (makes : MakesRoom format alive before ready)
      (fresh : artifact.evaluationId ∉ before.evaluations.issuedIds)
      (unevaluated : artifact.decisionDigest ∉ before.evaluations.evaluatedDecisions)
      (room : before.evaluations.issuedIds.length < limits.evaluationIds)
      (drafted : entry = before.draft format now decision.attribution
        (evaluatedEvent artifact decision)) :
      Submitted format limits alive now before artifact
        (.ok ((ready.commit entry ⟨format.encodedBytes entry, readable⟩ false).indexEvaluation
          artifact entry, entry))

theorem recordEvaluation_submitted (before : State) (artifact : EvaluationArtifact) :
    Submitted format limits alive now before artifact
      (before.recordEvaluation format limits alive now accepts artifact) := by
  simp only [State.recordEvaluation, bind, Except.bind, pure, Except.pure, throw, throwThe,
    MonadExceptOf.throw]
  have left := State.reclaim_left format limits alive now before
  cases reclaimed : before.reclaim format limits alive now with
  | error refused => exact .refused (left.of_error reclaimed)
  | ok middle =>
    have makes := left.of_ok reclaimed
    have sheds := makes.sheds
    dsimp only
    split
    case isTrue known =>
      rw [sheds.ids] at known
      split
      case h_1 entry found => exact .repeated makes known found
      case h_2 => exact .refused makes
    case isFalse fresh =>
      rw [sheds.ids] at fresh
      split
      case isTrue => exact .refused makes
      case isFalse unevaluated =>
        rw [sheds.decisions] at unevaluated
        split
        case isTrue => exact .refused makes
        case isFalse room =>
          rw [sheds.ids] at room
          split
          case h_1 => exact .refused makes
          case h_2 decision _ =>
            rcases middle.append_cases format limits alive now accepts decision.attribution
              (evaluatedEvent artifact decision) with
              ⟨error, after, failed, rest⟩ | ⟨ready, readable, appended, -, rest, -⟩
            · rw [failed]
              exact .refused (makes.trans rest)
            · rw [appended]
              exact .accepted (makes.trans rest) fresh unevaluated (Nat.lt_of_not_le room)
                (makes.shrinks.draft format now _ _)

/-! ## What the indexes hold -/

namespace Record

variable {record next : Record} {operation : Operation}

/-- Every evaluation that was recorded, the oldest first. -/
def evaluated (record : Record) : List EvaluationArtifact := record.committed.filterMap Entry.artifact

/-- The indexes are those of what was recorded. -/
structure Indexed (limits : Limits) (record : Record) : Prop where
  ids : record.state.evaluations.issuedIds =
    (record.evaluated.map (·.evaluationId)).reverse
  decisions : record.state.evaluations.evaluatedDecisions =
    (record.evaluated.map (·.decisionDigest)).reverse
  distinctIds : (record.evaluated.map (·.evaluationId)).Nodup
  distinctDecisions : (record.evaluated.map (·.decisionDigest)).Nodup
  within : record.evaluated.length ≤ limits.evaluationIds
  own : ∀ indexed ∈ record.state.evaluations.readableArtifacts,
    indexed.2 ∈ record.committed
  found : ∀ entry ∈ record.committed, ∀ artifact, entry.artifact = some artifact →
    record.state.readable entry.sequence = true →
      record.state.evaluations.readableArtifacts.lookup artifact.evaluationId = some entry

theorem Indexed.new (limits : Limits) (genesis : Digest) : Indexed limits (new genesis) where
  ids := rfl
  decisions := rfl
  distinctIds := List.nodup_nil
  distinctDecisions := List.nodup_nil
  within := Nat.zero_le _
  own _ listed := absurd listed List.not_mem_nil
  found _ listed := absurd listed List.not_mem_nil

/-- What was committed has a place before the count. -/
theorem committed_lt (rep : Represents format genesis record.committed record.state)
    {entry : Entry} (listed : entry ∈ record.committed) :
    entry.sequence < record.state.issued.total := by
  obtain ⟨place, at'⟩ := List.mem_iff_getElem?.mp listed
  obtain ⟨within, -⟩ := List.getElem?_eq_some_iff.mp at'
  rw [(rep.chained place entry at').1, rep.total]
  exact within

/-- Filtering a table keeps a lookup whose result stays. -/
theorem lookup_filter {table : List (String × Entry)} {keeps : String × Entry → Bool} {id : String}
    {entry : Entry} (found : table.lookup id = some entry)
    (kept : ∀ indexed, indexed.2 = entry → keeps indexed = true) :
    (table.filter keeps).lookup id = some entry := by
  obtain ⟨front, back, rfl, others⟩ := List.lookup_eq_some_iff.mp found
  rw [List.filter_append, List.filter_cons_of_pos (kept _ rfl)]
  refine List.lookup_eq_some_iff.mpr ⟨_, _, rfl, ?_⟩
  intro indexed listed
  exact others indexed (List.mem_of_mem_filter listed)

/-- An operation that evaluates nothing leaves the indexes as they are. -/
theorem Indexed.overlooks (indexed : Indexed limits record)
    (rep : Represents format genesis record.committed record.state)
    (overlooks : State.Overlooks record.state next.state)
    (grown : ∃ more, next.committed = record.committed ++ more ∧
      ∀ entry ∈ more, entry.artifact = none) : Indexed limits next := by
  obtain ⟨more, committed, plain⟩ := grown
  obtain ⟨keeps, left, kept⟩ := overlooks.artifacts
  have none : more.filterMap Entry.artifact = [] := by
    rw [List.filterMap_eq_nil_iff]
    exact plain
  have evaluated : next.evaluated = record.evaluated := by
    unfold Record.evaluated
    rw [committed, List.filterMap_append, none, List.append_nil]
  constructor
  case ids => rw [overlooks.ids, evaluated, indexed.ids]
  case decisions => rw [overlooks.decisions, evaluated, indexed.decisions]
  case distinctIds => rw [evaluated]; exact indexed.distinctIds
  case distinctDecisions => rw [evaluated]; exact indexed.distinctDecisions
  case within => rw [evaluated]; exact indexed.within
  case own =>
    intro item listed
    rw [left] at listed
    rw [committed]
    exact List.mem_append_left _ (indexed.own item (List.mem_of_mem_filter listed))
  case found =>
    intro entry listed artifact records readable
    rw [committed] at listed
    rcases List.mem_append.mp listed with old | new
    · have early := committed_lt rep old
      rw [left]
      refine lookup_filter
        (indexed.found entry old artifact records (overlooks.readable _ early readable)) ?_
      rintro item rfl
      exact kept item early readable
    · exact absurd records (by rw [plain entry new]; exact nofun)

/-- A submission that was accepted. -/
theorem Indexed.accepted {ready : State} {readable : Bool} {decision : ReadableDecision}
    {entry : Entry} (indexed : Indexed limits record)
    (rep : Represents format genesis record.committed record.state)
    (makes : MakesRoom format record.alive record.state ready)
    (fresh : artifact.evaluationId ∉ record.state.evaluations.issuedIds)
    (unevaluated : artifact.decisionDigest ∉ record.state.evaluations.evaluatedDecisions)
    (room : record.state.evaluations.issuedIds.length < limits.evaluationIds)
    (drafted : entry = record.state.draft format now decision.attribution
      (evaluatedEvent artifact decision))
    (committed : next.committed = record.committed ++ [entry])
    (state : next.state =
      (ready.commit entry ⟨format.encodedBytes entry, readable⟩ false).indexEvaluation artifact
        entry) : Indexed limits next := by
  have sheds := makes.sheds
  have rep' := rep.makesRoom makes
  have window : ready.issued.retired + ready.entries.length = ready.issued.total := by
    rw [rep'.window, rep'.total]
  have total := makes.shrinks.total
  have records : entry.artifact = some artifact := by rw [drafted]; rfl
  have place : entry.sequence = ready.issued.total := by rw [drafted, total]; rfl
  have evaluated : next.evaluated = record.evaluated ++ [artifact] := by
    unfold Record.evaluated
    rw [committed, List.filterMap_append, List.filterMap_cons_some records]
    rfl
  have shown (sequence : Nat) : next.state.readable sequence =
      (ready.commit entry ⟨format.encodedBytes entry, readable⟩ false).readable sequence := by
    rw [state]
    rfl
  have artifacts : next.state.evaluations.readableArtifacts =
      if next.state.readable entry.sequence then
        (artifact.evaluationId, entry) :: ready.evaluations.readableArtifacts
      else ready.evaluations.readableArtifacts := by
    rw [shown, state]
    rfl
  rw [indexed.ids, List.mem_reverse] at fresh
  rw [indexed.decisions, List.mem_reverse] at unevaluated
  rw [indexed.ids, List.length_reverse, List.length_map] at room
  obtain ⟨keeps, left, kept⟩ := sheds.artifacts
  constructor
  case ids =>
    rw [state]
    change _ :: ready.evaluations.issuedIds = _
    rw [sheds.ids, indexed.ids, evaluated, List.map_append, List.reverse_append]
    rfl
  case decisions =>
    rw [state]
    change _ :: ready.evaluations.evaluatedDecisions = _
    rw [sheds.decisions, indexed.decisions, evaluated, List.map_append, List.reverse_append]
    rfl
  case distinctIds =>
    rw [evaluated, List.map_append, List.map_singleton, ← List.concat_eq_append]
    exact List.Nodup.concat fresh indexed.distinctIds
  case distinctDecisions =>
    rw [evaluated, List.map_append, List.map_singleton, ← List.concat_eq_append]
    exact List.Nodup.concat unevaluated indexed.distinctDecisions
  case within =>
    rw [evaluated, List.length_append, List.length_singleton]
    omega
  case own =>
    have old : ∀ item ∈ ready.evaluations.readableArtifacts, item.2 ∈ next.committed := by
      intro item listed
      rw [left] at listed
      rw [committed]
      exact List.mem_append_left _ (indexed.own item (List.mem_of_mem_filter listed))
    intro item listed
    rw [artifacts] at listed
    split at listed
    · rcases List.mem_cons.mp listed with rfl | listed
      · rw [committed]
        exact List.mem_append_right _ (List.mem_singleton.mpr rfl)
      · exact old item listed
    · exact old item listed
  case found =>
    intro other listed artifact' records' readable'
    rw [committed] at listed
    rcases List.mem_append.mp listed with old | new
    · have early := committed_lt rep old
      rw [shown, State.commit_readable window _ _ _ (by omega)] at readable'
      have held : ready.evaluations.readableArtifacts.lookup artifact'.evaluationId = some other := by
        rw [left]
        refine lookup_filter
          (indexed.found other old artifact' records' (sheds.readable _ readable')) ?_
        rintro item rfl
        exact kept item readable'
      have differs : artifact'.evaluationId ≠ artifact.evaluationId := by
        intro same
        rw [← same] at fresh
        exact fresh (List.mem_map_of_mem (List.mem_filterMap.mpr ⟨other, old, records'⟩))
      rw [artifacts]
      split
      · rw [List.lookup_cons, beq_false_of_ne differs]
        exact held
      · exact held
    · obtain rfl := List.mem_singleton.mp new
      cases records.symm.trans records'
      rw [artifacts, if_pos readable', List.lookup_cons_self]

/-- What a submission makes of a record. -/
theorem perform_recordEvaluation (record : Record) (artifact : EvaluationArtifact) (now : Nat)
    (accepts : Bool) :
    record.perform format limits (.recordEvaluation artifact) now accepts =
      match record.state.recordEvaluation format limits record.alive now accepts artifact with
      | .error (_, state) => { record with state }
      | .ok (state, entry) => { record with
          state
          committed := record.committed ++
            if state.issued.total = record.state.issued.total then [] else [entry] } := by
  unfold perform
  change (match (record.state.recordEvaluation format limits record.alive now accepts artifact).map
    (Prod.map id Written.of) with | .error (_, state) => _ | .ok (state, written) => _) = _
  cases record.state.recordEvaluation format limits record.alive now accepts artifact <;> rfl

theorem Indexed.submits (indexed : Indexed limits record)
    (rep : Represents format genesis record.committed record.state) (artifact : EvaluationArtifact)
    (now : Nat) (accepts : Bool) :
    Indexed limits (record.perform format limits (.recordEvaluation artifact) now accepts) := by
  have submitted := @recordEvaluation_submitted format limits record.alive now accepts record.state
    artifact
  rw [perform_recordEvaluation]
  generalize record.state.recordEvaluation format limits record.alive now accepts artifact = result
    at submitted
  cases submitted with
  | repeated makes =>
    refine indexed.overlooks rep makes.sheds.overlooks ⟨[], ?_, fun _ listed => absurd listed List.not_mem_nil⟩
    exact congrArg (record.committed ++ ·) (if_pos makes.shrinks.total)
  | refused makes =>
    exact indexed.overlooks rep makes.sheds.overlooks
      ⟨[], (List.append_nil _).symm, fun _ listed => absurd listed List.not_mem_nil⟩
  | accepted makes fresh unevaluated room drafted =>
    refine indexed.accepted rep makes fresh unevaluated room drafted ?_ rfl
    refine congrArg (record.committed ++ ·) (if_neg ?_)
    change _ + 1 ≠ _
    rw [makes.shrinks.total]
    exact Nat.succ_ne_self _

/-- Every operation keeps the indexes. -/
theorem Indexed.performs (indexed : Indexed limits record)
    (rep : Represents format genesis record.committed record.state) (operation : Operation)
    (now : Nat) (accepts : Bool) :
    Indexed limits (record.perform format limits operation now accepts) := by
  by_cases evaluates : ∃ artifact, operation = .recordEvaluation artifact
  · obtain ⟨artifact, rfl⟩ := evaluates
    exact indexed.submits rep artifact now accepts
  · have ignores := @Operation.perform_ignores format limits record.alive now accepts genesis
      record.committed record.state rep operation
      (fun artifact same => evaluates ⟨artifact, same⟩)
    unfold perform
    generalize operation.perform format limits record.alive now accepts record.state = result
      at ignores
    cases result with
    | error refused =>
      exact indexed.overlooks rep ignores
        ⟨[], (List.append_nil _).symm, fun _ listed => absurd listed List.not_mem_nil⟩
    | ok written =>
      refine indexed.overlooks rep ignores.1 ⟨_, rfl, ?_⟩
      intro entry listed
      split at listed
      · exact absurd listed List.not_mem_nil
      · exact ignores.2 entry (Option.mem_toList.mp listed)

theorem Reachable.indexed (reached : Reachable format limits genesis record) :
    Indexed limits record := by
  induction reached with
  | refl => exact .new limits genesis
  | tail before step ih =>
    obtain ⟨operation, now, accepts, -, rfl⟩ := step
    exact ih.performs (Reachable.represents before) operation now accepts

/-- Of two evaluations that were recorded of one decision, or under one
identifier, there is only one. -/
theorem Indexed.alone (indexed : Indexed limits record) {other : EvaluationArtifact}
    (listed : artifact ∈ record.evaluated) (listed' : other ∈ record.evaluated)
    (same : artifact.evaluationId = other.evaluationId ∨
      artifact.decisionDigest = other.decisionDigest) : artifact = other := by
  rcases same with same | same
  · exact List.inj_on_of_nodup_map indexed.distinctIds listed listed' same
  · exact List.inj_on_of_nodup_map indexed.distinctDecisions listed listed' same

/-- The evaluations of a record, and what another submission does to them. -/
structure Evaluations (format : Format) (limits : Limits) (record : Record) : Prop where
  onePerId : (record.evaluated.map (·.evaluationId)).Nodup
  onePerDecision : (record.evaluated.map (·.decisionDigest)).Nodup
  ids : ∀ id, id ∈ record.state.evaluations.issuedIds ↔
    ∃ artifact ∈ record.evaluated, artifact.evaluationId = id
  decisions : ∀ digest, digest ∈ record.state.evaluations.evaluatedDecisions ↔
    ∃ artifact ∈ record.evaluated, artifact.decisionDigest = digest
  sizes : record.state.evaluations.issuedIds.length =
      record.state.evaluations.evaluatedDecisions.length ∧
    record.state.evaluations.issuedIds.length ≤ limits.evaluationIds
  resubmits : ∀ entry ∈ record.committed, ∀ artifact, entry.artifact = some artifact →
    ∀ now accepts ready,
      record.state.reclaim format limits record.alive now = .ok ready →
      ready.readable entry.sequence = true →
        record.state.recordEvaluation format limits record.alive now accepts artifact =
          .ok (ready, entry) ∧
        (record.perform format limits (.recordEvaluation artifact) now accepts).committed =
          record.committed
  conflicts : ∀ artifact ∈ record.evaluated, ∀ other, other ≠ artifact →
    (artifact.evaluationId = other.evaluationId ∨
      artifact.decisionDigest = other.decisionDigest) →
    ∀ now accepts, ∃ refused,
      record.state.recordEvaluation format limits record.alive now accepts other = .error refused
  refuses : ∀ artifact now accepts error after,
    record.state.recordEvaluation format limits record.alive now accepts artifact =
        .error (error, after) →
      after.evaluations.issuedIds = record.state.evaluations.issuedIds ∧
      after.evaluations.evaluatedDecisions = record.state.evaluations.evaluatedDecisions ∧
      (record.perform format limits (.recordEvaluation artifact) now accepts).committed =
        record.committed
  keeps : ∀ artifact now accepts,
    let next := record.perform format limits (.recordEvaluation artifact) now accepts
    next.minted = record.minted ∧ next.dropped = record.dropped ∧
      next.state.proofs.filter (fun proof => next.alive proof.entry.sequence) =
        record.state.proofs.filter (fun proof => record.alive proof.entry.sequence)

/-- The same evaluation again, while its entry can be read. -/
theorem Indexed.resubmits (indexed : Indexed limits record) {entry : Entry}
    (listed : entry ∈ record.committed) (records : entry.artifact = some artifact) {ready : State}
    (reclaimed : record.state.reclaim format limits record.alive now = .ok ready)
    (readable : ready.readable entry.sequence = true) :
    record.state.recordEvaluation format limits record.alive now accepts artifact =
      .ok (ready, entry) := by
  have makes := (State.reclaim_left format limits record.alive now record.state).of_ok reclaimed
  have sheds := makes.sheds
  obtain ⟨keeps, left, kept⟩ := sheds.artifacts
  have known : artifact.evaluationId ∈ ready.evaluations.issuedIds := by
    rw [sheds.ids, indexed.ids, List.mem_reverse]
    exact List.mem_map_of_mem (List.mem_filterMap.mpr ⟨entry, listed, records⟩)
  have held : ready.evaluations.readableArtifacts.lookup artifact.evaluationId = some entry := by
    rw [left]
    refine lookup_filter
      (indexed.found entry listed artifact records (sheds.readable _ readable)) ?_
    rintro item rfl
    exact kept item readable
  have found : ready.evaluationOf artifact = some entry := by
    unfold State.evaluationOf
    rw [held, Option.filter_some]
    exact if_pos (Entry.artifact_iff.mpr records)
  simp only [State.recordEvaluation, bind, Except.bind, pure, Except.pure]
  rw [reclaimed]
  dsimp only
  rw [if_pos known, found]

/-- An artifact that was found is that of the entry. -/
theorem evaluationOf_eq_some {entry : Entry} (found : state.evaluationOf artifact = some entry) :
    state.evaluations.readableArtifacts.lookup artifact.evaluationId = some entry ∧
      entry.artifact = some artifact := by
  unfold State.evaluationOf at found
  obtain ⟨held, matches'⟩ := Option.filter_eq_some_iff.mp found
  exact ⟨held, Entry.artifact_iff.mp matches'⟩

/-- **Evaluations.** In whatever order evaluations are submitted, entries are
sealed and retired, and the sink fails, a record holds at most one evaluation
under an identifier and at most one of a decision. The same one again, while
its entry can be read, is answered with that entry; any other under its name is
refused; and what is refused, or repeated, changes no index, no receipt and no
live proof. -/
theorem Reachable.evaluations (reached : Reachable format limits genesis record) :
    Evaluations format limits record := by
  have indexed := reached.indexed
  have rep := reached.represents
  constructor
  case onePerId => exact indexed.distinctIds
  case onePerDecision => exact indexed.distinctDecisions
  case ids =>
    intro id
    rw [indexed.ids, List.mem_reverse, List.mem_map]
  case decisions =>
    intro digest
    rw [indexed.decisions, List.mem_reverse, List.mem_map]
  case sizes =>
    rw [indexed.ids, indexed.decisions, List.length_reverse, List.length_reverse, List.length_map,
      List.length_map]
    exact ⟨rfl, indexed.within⟩
  case resubmits =>
    intro entry listed artifact records now accepts ready reclaimed readable
    have again := @Indexed.resubmits format limits now accepts artifact record indexed entry listed
      records ready reclaimed readable
    have makes := (State.reclaim_left format limits record.alive now record.state).of_ok reclaimed
    refine ⟨again, ?_⟩
    rw [perform_recordEvaluation, again]
    exact (congrArg (record.committed ++ ·) (if_pos makes.shrinks.total)).trans (List.append_nil _)
  case conflicts =>
    intro artifact listed other differs same now accepts
    have submitted := @recordEvaluation_submitted format limits record.alive now accepts
      record.state other
    generalize record.state.recordEvaluation format limits record.alive now accepts other = result
      at submitted
    cases submitted with
    | refused => exact ⟨_, rfl⟩
    | @repeated entry ready makes known found =>
      obtain ⟨held, records⟩ := evaluationOf_eq_some found
      obtain ⟨keeps, left, -⟩ := makes.sheds.artifacts
      obtain ⟨front, back, split, -⟩ := List.lookup_eq_some_iff.mp held
      have kept : entry ∈ record.committed := by
        have held : (other.evaluationId, entry) ∈ ready.evaluations.readableArtifacts := by
          rw [split]
          exact List.mem_append_right _ List.mem_cons_self
        rw [left] at held
        exact indexed.own _ (List.mem_of_mem_filter held)
      have listed' : other ∈ record.evaluated := List.mem_filterMap.mpr ⟨entry, kept, records⟩
      exact absurd (indexed.alone listed listed' same).symm differs
    | accepted makes fresh unevaluated =>
      rw [indexed.ids, List.mem_reverse] at fresh
      rw [indexed.decisions, List.mem_reverse] at unevaluated
      rcases same with same | same
      · exact absurd (same ▸ List.mem_map_of_mem listed) fresh
      · exact absurd (same ▸ List.mem_map_of_mem listed) unevaluated
  case refuses =>
    intro artifact now accepts error after refused
    have submitted := @recordEvaluation_submitted format limits record.alive now accepts
      record.state artifact
    rw [refused] at submitted
    rw [perform_recordEvaluation, refused]
    cases submitted with
    | refused makes => exact ⟨makes.sheds.ids, makes.sheds.decisions, rfl⟩
  case keeps =>
    intro artifact now accepts
    have submitted := @recordEvaluation_submitted format limits record.alive now accepts
      record.state artifact
    rw [perform_recordEvaluation]
    generalize record.state.recordEvaluation format limits record.alive now accepts artifact = result
      at submitted
    cases submitted with
    | repeated makes => exact ⟨rfl, rfl, makes.live⟩
    | refused makes => exact ⟨rfl, rfl, makes.live⟩
    | accepted makes => exact ⟨rfl, rfl, makes.live⟩

end Record

def Sample.judged : EvaluationArtifact where
  evaluationId := "first"
  decisionDigest := ⟨[0]⟩
  evaluator := "evaluator"
  model := "model"
  promptVersion := "1"
  verdict := .uncertain
  confidence := 50
  rationale := "unclear"
  sideEffects := []

/-- The record with its decision evaluated. -/
def Sample.evaluated : Record :=
  decided.perform Sample.format Sample.limits (.recordEvaluation judged) 0 true

theorem Sample.evaluations_sample :
    evaluated.evaluated = [judged] ∧
      Record.Evaluations Sample.format Sample.limits evaluated :=
  ⟨rfl, Record.Reachable.evaluations
    (.tail decided_reachable ⟨.recordEvaluation judged, 0, true, trivial, rfl⟩)⟩

end Ledger

end McpSsh
