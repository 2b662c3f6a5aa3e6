import McpSsh.Bastion.Calls

/-!
# Which steps a call takes

What a proof asks of every step of a call mostly depends on a few kinds of steps
that calls share. So the programs of the calls are gone through once, here: each
takes steps of the kinds said of it only, and what is true of all steps of these
kinds is true of all of its steps.
-/

namespace McpSsh.Bastion

open Interleaving

variable {deployment : Deployment} {α β : Type}

/-! ## Kinds of steps -/

/-- What a step is about, as far as steps are told apart by more than what they
do to the service. -/
inductive Kind
  /-- None of the others. -/
  | other
  /-- A session slot is reserved, used or given back. -/
  | slot
  /-- An intent is recorded. -/
  | intent
  /-- A request is answered. -/
  | answer
  /-- The call's proofs are let go of. -/
  | leave
  /-- The lock on publishing is let go of. -/
  | publishing
  /-- A connection is dialled, placed, looked up, moved or closed. -/
  | link
  | opening
  | ending
  | account
  deriving DecidableEq

def ServiceStep.kind : ServiceStep β → Kind
  | .leave => .leave
  | .unlock .publishing => .publishing
  | _ => .other

def SessionStep.kind : SessionStep β → Kind
  | .reserve _ | .release _ | .publish .. => .slot
  | _ => .other

def RequestStep.kind : RequestStep β → Kind
  | .answer .. => .answer
  | _ => .other

/-- An entry opens a session, ends one, or is about what happened in one. -/
def LedgerStep.kind : LedgerStep β → Kind
  | .recordIntent .. => .intent
  | .record _ event => if event.isOpening then .opening else if event.isEnd then .ending else .account
  | _ => .other

def LinkStep.kind : LinkStep β → Kind
  | .isCurrent .. | .look _ => .other
  | _ => .link

def Step.kind : Step β → Kind
  | .service step => step.kind
  | .sessions step => step.kind
  | .requests step => step.kind
  | .ledger step => step.kind
  | .links step => step.kind
  | _ => .other

theorem LedgerStep.record_isEnd (who : Attribution) {event : Event}
    (kind : (LedgerStep.record who event).kind ≠ .ending) : event.isEnd = false := by
  cases event <;> first | rfl | exact absurd rfl kind

/-! ## Kinds a program takes -/

/-- Every step a program can come to is of one of these kinds. -/
abbrev Takes (kinds : List Kind) (program : Prog α) : Prop :=
  program.All fun _ step => kinds.contains step.kind = true

namespace Takes
variable {few kinds : List Kind} {program : Prog α}

theorem more (takes : Takes few program) (among : few.all kinds.contains = true) :
    Takes kinds program :=
  takes.mono fun _ step is => List.all_eq_true.mp among step.kind (List.contains_iff_mem.mp is)

/-- What is true of the steps of these kinds is true of all its steps. -/
theorem each (takes : Takes kinds program) {of : Kind → Bool} (all : kinds.all of = true)
    {holds : (γ : Type) → Step γ → Prop}
    (each : ∀ γ (step : Step γ), of step.kind = true → holds γ step) : program.All holds :=
  takes.mono fun _ step is =>
    each _ step (List.all_eq_true.mp all step.kind (List.contains_iff_mem.mp is))

theorem reply (takes : Takes kinds program) {reply : α → β} :
    Takes kinds (program >>= fun value => pure (reply value)) :=
  .bind takes fun _ => .done _

end Takes

/-! ## Approvals -/

theorem recordApproval_takes (intended : Intended) (grant : Grant) :
    Takes [.other] (recordApproval deployment intended grant) := by
  unfold recordApproval
  split
  · exact .done _
  · refine .act _ _ rfl fun checked => ?_
    cases checked with
    | error => exact .done _
    | ok => exact .act _ _ rfl fun _ => .done _

theorem recordAnswer_takes (answer : Answer) : Takes [.other] (recordAnswer answer) := by
  refine .act _ _ rfl fun checked => ?_
  cases checked with
  | error => exact .done _
  | ok => exact .act _ _ rfl fun _ => .done _

theorem collect_takes (intended : Intended) (grant : Grant) :
    Takes [.other] (collect deployment intended grant) := by
  change Takes _ (recordApproval deployment intended grant >>= _)
  refine .bind (recordApproval_takes intended grant) fun minted => ?_
  cases minted with
  | error => exact .act _ _ rfl fun _ => .done _
  | ok => exact .act _ _ rfl fun _ => .done _

theorem askWith_takes (intended : Intended) : Takes [.other] (askWith deployment intended) := by
  unfold askWith
  split
  · exact .done _
  · refine .act _ _ rfl fun asking => ?_
    cases asking with
    | answered result => cases result <;> exact .done _
    | collect grant =>
      change Takes _ (collect deployment intended grant >>= _)
      exact .bind (collect_takes intended grant) fun _ => .done _

theorem redeemActionWith_takes (request : RequestId) (principal : PrincipalId) (action : Action)
    (intended : Intended) :
    Takes [.other] (redeemActionWith deployment request principal action intended) := by
  refine .act _ _ rfl fun found => ?_
  cases found with
  | error => exact .done _
  | ok grant => exact collect_takes intended grant

theorem applyAnswer_takes (request : RequestId) (approver : Approver) (agreed : Bool) :
    Takes [.other, .answer] (applyAnswer request approver agreed) := by
  unfold applyAnswer
  split
  · exact .done _
  refine .act _ _ rfl fun found => ?_
  cases found with
  | error => exact .done _
  | ok found =>
    refine .act _ _ rfl fun lives => ?_
    cases lives with
    | false => exact .act _ _ rfl fun _ => .done _
    | true =>
      refine .act _ _ rfl fun answer => ?_
      change Takes _ (recordAnswer answer >>= _)
      refine .bind ((recordAnswer_takes answer).more rfl) fun recorded => ?_
      cases recorded with
      | error => exact .done _
      | ok =>
        cases agreed with
        | false => exact .done _
        | true => exact .act _ _ rfl fun _ => .done _

theorem useStanding_takes (principal : PrincipalId) (session : SessionId) (action : Action)
    (intended : Intended) (request : RequestId) :
    Takes [.other, .answer]
      (useStanding deployment principal session action intended request) := by
  refine .act _ _ rfl fun selected => ?_
  cases selected with
  | none => exact .done _
  | some agreement =>
    change Takes _ (applyAnswer request agreement.approver true >>= _)
    refine .bind (applyAnswer_takes request agreement.approver true) fun answer => ?_
    cases answer with
    | error => exact .act _ _ rfl fun _ => .done _
    | ok =>
      change Takes _ (redeemActionWith deployment request principal action intended >>= _)
      exact .bind ((redeemActionWith_takes request principal action intended).more rfl) fun _ =>
        .act _ _ rfl fun _ => .done _

theorem awaitApproval_takes (principal : PrincipalId) (session : SessionId) (action : Action)
    (intended : Intended) (asked : Ask) (lapsedFrom : Option Approver) :
    Takes [.other, .answer]
      (awaitApproval deployment principal session action intended asked lapsedFrom) := by
  change Takes _ (useStanding deployment principal session action intended asked.asked.id >>= _)
  refine .bind (useStanding_takes principal session action intended asked.asked.id) fun used => ?_
  cases used with
  | none => cases lapsedFrom <;> exact .done _
  | some result => cases result <;> exact .done _

theorem admission_takes (principal : PrincipalId) (session : SessionId) (action : Action)
    (intended : Intended) :
    Takes [.other, .answer] (admission deployment principal session action intended) := by
  unfold admission
  split
  · exact .done _
  · split <;> exact .done _
  · refine .bind ((askWith_takes intended).more rfl) fun standing => ?_
    match standing with
    | .error _ | .ok (.ready _) | .ok (.refused _) => exact .done _
    | .ok (.waiting asked) | .ok (.lapsed asked _) =>
      exact awaitApproval_takes principal session action intended asked _

theorem authorizeAction_takes (principal : PrincipalId) (id : SessionId)
    (agentIntent : CommandIntent) (action : Except MediationError Action) :
    Takes [.other, .intent, .answer, .leave]
      (authorizeAction deployment principal id agentIntent action) := by
  refine .act _ _ rfl fun stopping => ?_
  cases stopping with
  | true => exact .done _
  | false =>
    refine .act _ _ rfl fun used => ?_
    cases used with
    | error => exact .done _
    | ok session =>
      cases action with
      | error => exact .done _
      | ok action =>
        refine .act _ _ rfl fun recorded => ?_
        cases recorded with
        | error => exact .done _
        | ok intended =>
          change Takes _ (admission deployment principal session.id action intended >>= _)
          exact .bind ((admission_takes principal session.id action intended).more rfl) fun _ =>
            .act _ _ rfl fun _ => .done _

theorem decide_takes (request : RequestId) (approver : Approver) (agreed : Bool) :
    Takes [.other, .answer, .leave] (Bastion.decide request approver agreed) := by
  change Takes _ (applyAnswer request approver agreed >>= _)
  exact .bind ((applyAnswer_takes request approver agreed).more rfl) fun _ =>
    .act _ _ rfl fun _ => .done _

theorem standingUntil_takes (session : SessionId) (forMillis : Option Nat) :
    Takes [.other] (standingUntil deployment session forMillis) := by
  refine .act _ _ rfl fun reading => .act _ _ rfl fun ends => ?_
  cases ends <;> exact .done _

theorem approveSession_takes (request : RequestId) (who : String) (forMillis : Option Nat) :
    Takes [.other, .answer, .leave] (approveSession deployment request who forMillis) := by
  change Takes _ (applyAnswer request (.human who) true >>= _)
  refine .bind ((applyAnswer_takes request (.human who) true).more rfl) fun answer => ?_
  cases answer with
  | error => exact .act _ _ rfl fun _ => .done _
  | ok answer =>
    change Takes _ (standingUntil deployment answer.asked.session forMillis >>= _)
    refine .bind ((standingUntil_takes answer.asked.session forMillis).more rfl) fun until_ => ?_
    exact .act _ _ rfl fun reading => .act _ _ rfl fun agreement => .act _ _ rfl fun _ => .done _

/-! ## Connections and runs -/

theorem stillTheLiveSessionConnection_takes (session : Session) (holder : Nat) :
    Takes [.other] (stillTheLiveSessionConnection session holder) := by
  refine .act _ _ rfl fun admitted => ?_
  cases admitted with
  | false => exact .done _
  | true =>
  refine .act _ _ rfl fun used => ?_
  cases used with
  | error => exact .done _
  | ok =>
  refine .act _ _ rfl fun current => ?_
  cases current <;> exact .done _

theorem connectionUnder_takes (session : Session) (holder : Nat) :
    Takes [.other, .link] (connectionUnder deployment session holder) := by
  unfold connectionUnder
  refine .bind ((stillTheLiveSessionConnection_takes session holder).more rfl) fun checked => ?_
  cases checked with
  | error => exact .done _
  | ok =>
  refine .act _ _ rfl fun looked => ?_
  rcases looked with _ | ⟨connection, gone⟩
  · exact .done _
  cases gone with
  | false => exact .done _
  | true =>
  cases resolved : deployment.registry.resolve session.host session.role with
  | error error =>
    simp only
    exact .done _
  | ok target =>
  refine .act _ _ rfl fun stopping => ?_
  cases stopping with
  | true => exact .done _
  | false =>
  refine .act _ _ rfl fun dialled => ?_
  cases dialled with
  | none => exact .done _
  | some fresh =>
  change Takes _ (stillTheLiveSessionConnection session holder >>= _)
  refine .bind ((stillTheLiveSessionConnection_takes session holder).more rfl) fun checked => ?_
  cases checked <;> exact .act _ _ rfl fun _ => .done _

theorem connectionFor_takes (session : Session) :
    Takes [.other, .link] (connectionFor deployment session) := by
  refine .act _ _ rfl fun found => ?_
  cases found with
  | none => exact .done _
  | some holder =>
    refine .act _ _ rfl fun _ => ?_
    change Takes _ (connectionUnder deployment session holder >>= _)
    exact .bind (connectionUnder_takes session holder) fun _ => .act _ _ rfl fun _ => .done _

theorem start_takes (session : SessionId) (connection : Connection) (receipt : Receipt) :
    Takes [.other] (start session connection receipt) := by
  unfold Bastion.start
  split
  · exact .done _
  split
  · exact .done _
  refine .act _ _ rfl fun opened => ?_
  cases opened with
  | false => exact .done _
  | true => exact .act _ _ rfl fun _ => .done _

theorem transfer_takes (session : SessionId) (connection : Connection) (receipt : Receipt)
    (payload : Payload) : Takes [.other] (transfer session connection receipt payload) := by
  unfold transfer
  split
  · exact .done _
  split
  · exact .act _ _ rfl fun _ => .done _
  · exact .done _

theorem perform_takes (session : Session) (admission : Admission) (payload : Option Payload) :
    Takes [.other, .link] (perform deployment session admission payload) := by
  unfold perform
  cases admission with
  | held executed => exact .done _
  | ready decision receipt approvedBy =>
  refine .bind (connectionFor_takes session) fun connection => ?_
  cases connection with
  | error => exact .done _
  | ok connection =>
  cases payload with
  | none =>
    refine .bind ((start_takes session.id connection receipt).more rfl) fun run => ?_
    cases run <;> exact .done _
  | some payload =>
    refine .bind ((transfer_takes session.id connection receipt payload).more rfl) fun run => ?_
    cases run <;> exact .done _

theorem submit_takes (principal : PrincipalId) (session : SessionId) (agentIntent : CommandIntent)
    (work : Work) : Takes [.other, .intent, .answer, .leave, .link]
      (Bastion.submit deployment principal session agentIntent work) := by
  refine .act _ _ rfl fun admitted => ?_
  cases admitted with
  | false => exact .done _
  | true =>
  change Takes _ (authorizeAction deployment principal session agentIntent work.action >>= _)
  refine .bind ((authorizeAction_takes principal session agentIntent work.action).more rfl)
    fun result => ?_
  rcases result with error | ⟨session, admission⟩
  · exact .done _
  · exact (perform_takes session admission work.payload).more rfl

/-! ## Housekeeping -/

theorem livingRequests_takes (reading : Nat) (requests : Approvals.Requests) :
    Takes [.other] (livingRequests reading requests) := by
  induction requests with
  | nil => exact .done _
  | cons held rest ih =>
    unfold livingRequests
    split
    · exact ih
    · refine .act _ _ rfl fun lives => ?_
      change Takes _ (livingRequests reading rest >>= _)
      exact .bind ih fun kept => .done _

theorem livingAgreements_takes (reading : Nat) (agreements : Approvals.Agreements) :
    Takes [.other] (livingAgreements reading agreements) := by
  induction agreements with
  | nil => exact .done _
  | cons agreement rest ih =>
    unfold livingAgreements
    split
    · exact ih
    · refine .act _ _ rfl fun lives => ?_
      change Takes _ (livingAgreements reading rest >>= _)
      exact .bind ih fun kept => .done _

theorem sweepApprovals_takes : Takes [.other] sweepApprovals := by
  refine .act _ _ rfl fun reading => .act _ _ rfl fun held => ?_
  change Takes _ (livingRequests reading held >>= _)
  refine .bind (livingRequests_takes reading held) fun kept => ?_
  refine .act _ _ rfl fun _ => .act _ _ rfl fun agreements => ?_
  change Takes _ (livingAgreements reading agreements >>= _)
  exact .bind (livingAgreements_takes reading agreements) fun kept => .act _ _ rfl fun _ => .done _

theorem closeHolder_takes (holder : Nat) : Takes [.other, .link] (closeHolder holder) := by
  refine .act _ _ rfl fun _ => .act _ _ rfl fun looked => ?_
  rcases looked with _ | ⟨connection, gone⟩
  · exact .act _ _ rfl fun _ => .done _
  · exact .act _ _ rfl fun _ => .act _ _ rfl fun _ => .done _

theorem closeHolders_takes (holders : List Nat) : Takes [.other, .link] (closeHolders holders) := by
  induction holders with
  | nil => exact .done _
  | cons holder rest ih => exact .bind (closeHolder_takes holder) fun _ => ih

theorem closeOrphaned_takes : Takes [.other, .link, .publishing] closeOrphaned := by
  refine .act _ _ rfl fun admitted => ?_
  cases admitted with
  | false => exact .done _
  | true =>
    exact .act _ _ rfl fun _ => .act _ _ rfl fun _ => .act _ _ rfl fun _ =>
      .act _ _ rfl fun orphaned => .act _ _ rfl fun _ => (closeHolders_takes orphaned).more rfl

theorem reclaim_takes : Takes [.other, .link, .publishing] Bastion.reclaim := by
  change Takes _ (closeOrphaned >>= _)
  refine .bind closeOrphaned_takes fun _ => .act _ _ rfl fun admitted => ?_
  cases admitted with
  | false => exact .done _
  | true =>
    change Takes _ (sweepApprovals >>= _)
    exact .bind (sweepApprovals_takes.more rfl) fun _ => .act _ _ rfl fun _ => .done _

/-! ## Sessions -/

theorem openSession_takes (principal : PrincipalId) (host : HostId) (role : RoleId)
    (purpose : Purpose) (accessClass : AccessClass) :
    Takes [.other, .link, .publishing, .slot, .opening]
      (Bastion.openSession deployment principal host role purpose accessClass) := by
  unfold Bastion.openSession
  split
  · exact .done _
  refine .act _ _ rfl fun admitted => ?_
  cases admitted with
  | false => exact .done _
  | true =>
  refine .act _ _ rfl fun reserved => ?_
  cases reserved with
  | error => exact .done _
  | ok =>
  refine .act _ _ rfl fun dialled => ?_
  cases dialled with
  | none => exact .act _ _ rfl fun _ => .done _
  | some connection =>
  refine .act _ _ rfl fun admitted => ?_
  cases admitted with
  | false => exact .act _ _ rfl fun _ => .act _ _ rfl fun _ => .done _
  | true =>
  refine .act _ _ rfl fun _ => .act _ _ rfl fun session => .act _ _ rfl fun _ => .act _ _ rfl fun _ =>
    .act _ _ rfl fun recorded => ?_
  cases recorded with
  | error => exact .done _
  | ok =>
  change Takes _ (Bastion.reclaim >>= _)
  exact .bind (reclaim_takes.more rfl) fun _ => .done _

/-- What is left to do once a session is out of the store. -/
theorem closeRemoved_takes (holder : Option Nat) (value : α) :
    Takes [.other, .link, .publishing]
      (closeRemoved holder >>= fun _ => Bastion.reclaim >>= fun _ => pure value) := by
  refine .bind ?_ fun _ => .bind reclaim_takes fun _ => .done _
  cases holder with
  | none => exact .done _
  | some holder => exact (closeHolder_takes holder).more rfl

theorem closeSession_takes (principal : PrincipalId) (id : SessionId) :
    Takes [.other, .link, .publishing, .ending] (Bastion.closeSession principal id) := by
  refine .act _ _ rfl fun admitted => ?_
  cases admitted with
  | false => exact .done _
  | true =>
  refine .act _ _ rfl fun _ => .act _ _ rfl fun used => ?_
  cases used with
  | error => exact .act _ _ rfl fun _ => .done _
  | ok session =>
  refine .act _ _ rfl fun recorded => ?_
  cases recorded with
  | error => exact .act _ _ rfl fun _ => .done _
  | ok =>
  refine .act _ _ rfl fun closed => ?_
  cases closed with
  | error => exact .act _ _ rfl fun _ => .done _
  | ok =>
  exact .act _ _ rfl fun holder => .act _ _ rfl fun _ => (closeRemoved_takes holder _).more rfl

theorem terminateSession_takes (id : SessionId) (operator : PrincipalId) :
    Takes [.other, .link, .publishing, .ending] (Bastion.terminateSession id operator) := by
  refine .act _ _ rfl fun admitted => ?_
  cases admitted with
  | false => exact .done _
  | true =>
  refine .act _ _ rfl fun _ => .act _ _ rfl fun claimed => ?_
  cases claimed with
  | none => exact .act _ _ rfl fun _ => .done _
  | some session =>
  refine .act _ _ rfl fun recorded => ?_
  cases recorded with
  | error => exact .act _ _ rfl fun _ => .act _ _ rfl fun _ => .done _
  | ok =>
  exact .act _ _ rfl fun _ => .act _ _ rfl fun holder => .act _ _ rfl fun _ =>
    (closeRemoved_takes holder _).more rfl

/-! ## Calls -/

/-- The kinds of the steps a call takes. -/
def Call.kinds : Call → List Kind
  | .openSession .. => [.other, .link, .publishing, .slot, .opening]
  | .authorize .. => [.other, .intent, .answer, .leave]
  | .submit .. => [.other, .intent, .answer, .leave, .link]
  | .decide .. | .approveSession .. => [.other, .answer, .leave]
  | .closeSession .. | .terminateSession .. => [.other, .link, .publishing, .ending]
  | .reclaim => [.other, .link, .publishing]
  | .revokeStanding _ | .stop => [.other]
  | .account .. => [.account]

theorem Call.program_takes (call : Call) : Takes call.kinds (call.program deployment) := by
  cases call with
  | openSession => exact (openSession_takes ..).reply
  | authorize => exact (authorizeAction_takes ..).reply
  | submit => exact (submit_takes ..).reply
  | decide => exact (decide_takes ..).reply
  | approveSession => exact (approveSession_takes ..).reply
  | revokeStanding => exact .act _ _ rfl fun _ => .done _
  | closeSession => exact (closeSession_takes ..).reply
  | terminateSession => exact (terminateSession_takes ..).reply
  | reclaim => exact .bind reclaim_takes fun _ => .done _
  | stop => exact .act _ _ rfl fun _ => .act _ _ rfl fun _ => .done _
  | account who event about =>
    refine .act _ _ ?_ fun _ => .done _
    cases event <;> first | rfl | cases about

end McpSsh.Bastion
