import McpSsh.Bastion.Step

/-!
# Calls

The service's calls, as programs of its steps. What a run does once it is
registered is not followed here; its completion, a cancellation and an
evaluation reach the record through `account`.
-/

namespace McpSsh.Bastion

open Interleaving
open Approvals (Standing StandingApproval)

abbrev Prog : Type → Type 1 := Program Step

namespace Prog

def service {β : Type} (step : ServiceStep β) : Prog β := .step (.service step)
def sessions {β : Type} (step : SessionStep β) : Prog β := .step (.sessions step)
def requests {β : Type} (step : RequestStep β) : Prog β := .step (.requests step)
def standing {β : Type} (step : StandingStep β) : Prog β := .step (.standing step)
def ledger {β : Type} (step : LedgerStep β) : Prog β := .step (.ledger step)
def links {β : Type} (step : LinkStep β) : Prog β := .step (.links step)
def runs {β : Type} (step : RunStep β) : Prog β := .step (.runs step)

end Prog

open Prog

variable (deployment : Deployment)

/-! ## Recording and collecting -/

/-- `Ledger::record_approval`. -/
def recordApproval (intended : Intended) (grant : Grant) :
    Prog (Except AuditError (Receipt × Approver)) :=
  match Ledger.approvalRefusal deployment.format.sha256 intended grant with
  | some error => return .error error
  | none => do
    match ← ledger (.thisDeliberation grant.decided grant.decidedDigest
        intended.decision.session.id) with
    | .error error => return .error error
    | .ok () => ledger (.recordApproval intended grant)

/-- `Ledger::record_answer`. -/
def recordAnswer (answer : Answer) : Prog (Except AuditError Entry) := do
  match ← ledger (.thisDeliberation answer.asked.decided answer.asked.decidedDigest
      answer.asked.session) with
  | .error error => return .error error
  | .ok () => ledger (.recordAnswer answer)

/-- What `ask_with` and `redeem_action_with` do with a grant under the lock. -/
def collect (intended : Intended) (grant : Grant) :
    Prog (Except MediationError (Receipt × Approver)) := do
  match ← recordApproval deployment intended grant with
  | .error error =>
    requests .unlock
    return .error (.audit error)
  | .ok minted =>
    requests (.spend grant.request)
    return .ok minted

/-- `Approvals::ask_with`, recording the agreement it finds. -/
def askWith (intended : Intended) :
    Prog (Except MediationError (Standing (Receipt × Approver))) :=
  if intended.decision.verdict ≠ .needsApproval then return .error (.approval .notHeld)
  else do
    match ← requests (.ask intended) with
    | .answered (.error error) => return .error (.approval error)
    | .answered (.ok standing) => return .ok (standing.map Empty.elim)
    | .collect grant => return (← collect deployment intended grant).map .ready

/-- `Approvals::redeem_action_with`, recording the agreement it finds. -/
def redeemActionWith (request : RequestId) (principal : PrincipalId) (action : Action)
    (intended : Intended) : Prog (Except MediationError (Receipt × Approver)) := do
  match ← requests (.redeem request principal
      (digestAction deployment.format.sha256 action intended.agentIntent)) with
  | .error error => return .error (.approval error)
  | .ok grant => collect deployment intended grant

/-- `Bastion::apply_answer`. -/
def applyAnswer (request : RequestId) (approver : Approver) (agreed : Bool) :
    Prog (Except MediationError Answer) :=
  if !approver.isStated then return .error (.approval .unattributed)
  else do
    match ← requests (.decidable request) with
    | .error error => return .error (.approval error)
    | .ok (held, reading) =>
      match ← sessions (.holds held.asked.session) with
      | false =>
        requests .unlock
        return .error (.approval .lapsed)
      | true =>
        let answer ← requests (.answer held reading approver agreed)
        match ← recordAnswer answer with
        | .error error => return .error (.audit error)
        | .ok _ =>
          if agreed then
            let _ ← requests (.markRecorded request)
            return .ok answer
          else return .ok answer

/-- `Approvals::use_standing`, as `authorize_action` uses it: the agreement
answers the request, and the answer is collected. -/
def useStanding (principal : PrincipalId) (session : SessionId) (action : Action)
    (intended : Intended) (request : RequestId) :
    Prog (Option (Except MediationError (Receipt × Approver))) := do
  match ← standing (.select session) with
  | none => return none
  | some agreement =>
    match ← applyAnswer request agreement.approver true with
    | .error error =>
      standing .unlock
      return some (.error error)
    | .ok _ =>
      let recorded ← redeemActionWith deployment request principal action intended
      standing .unlock
      return some recorded

/-! ## Admission -/

/-- What a request nobody has agreed to yet comes to. `lapsedFrom` is who
agreed to the one it takes the place of. -/
def awaitApproval (principal : PrincipalId) (session : SessionId) (action : Action)
    (intended : Intended) (asked : Ask) (lapsedFrom : Option Approver) :
    Prog (Except MediationError Admission) := do
  match ← useStanding deployment principal session action intended asked.asked.id with
  | some (.error error) => return .error error
  | some (.ok (receipt, approver)) => return .ok (.ready intended.decision receipt (some approver))
  | none =>
    match lapsedFrom with
    | some by_ => return .ok (.held (.approvalLapsed intended.decision asked by_))
    | none => return .ok (.held (.awaitingApproval intended.decision asked))

/-- What a recorded intent is admitted as. -/
def admission (principal : PrincipalId) (session : SessionId) (action : Action)
    (intended : Intended) : Prog (Except MediationError Admission) :=
  match intended.decision.verdict with
  | .deny => return .ok (.held (.refused intended.decision none))
  | .permit =>
    match intended.receipt with
    | none => return .error .noReceipt
    | some receipt => return .ok (.ready intended.decision receipt none)
  | .needsApproval => do
    match ← askWith deployment intended with
    | .error error => return .error error
    | .ok (.ready (receipt, approver)) =>
      return .ok (.ready intended.decision receipt (some approver))
    | .ok (.refused by_) => return .ok (.held (.refused intended.decision (some by_)))
    | .ok (.waiting asked) =>
      awaitApproval deployment principal session action intended asked none
    | .ok (.lapsed asked by_) =>
      awaitApproval deployment principal session action intended asked (some by_)

/-- `Bastion::authorize_action`. The action is built once the session is known
to be the caller's. -/
def authorizeAction (principal : PrincipalId) (id : SessionId) (agentIntent : CommandIntent)
    (action : Except MediationError Action) : Prog (Except MediationError (Session × Admission)) := do
  match ← service .stopping with
  | true => return .error .stopping
  | false =>
    match ← sessions (.useSession id principal) with
    | .error error => return .error (.session error)
    | .ok session =>
      match action with
      | .error error => return .error error
      | .ok action =>
        match ← ledger (.recordIntent (deployment.review.decideAction session action)
            agentIntent) with
        | .error error => return .error (.audit error)
        | .ok intended =>
          let admitted ← admission deployment principal session.id action intended
          service .leave
          return admitted.map (session, ·)

/-! ## The session's connection -/

/-- `Bastion::still_the_live_session_connection`, in a worker. -/
def stillTheLiveSessionConnection (session : Session) (holder : Nat) :
    Prog (Except MediationError Unit) := do
  match ← service .enter with
  | false => return .error .busy
  | true =>
    match ← sessions (.useSession session.id session.principal) with
    | .error error => return .error (.session error)
    | .ok _ =>
      match ← links (.isCurrent session.id holder) with
      | true => return .ok ()
      | false => return .error .noConnection

/-- `Bastion::connection_for`, under the holder's lock. -/
def connectionUnder (session : Session) (holder : Nat) :
    Prog (Except MediationError Connection) := do
  match ← stillTheLiveSessionConnection session holder with
  | .error error => return .error error
  | .ok () =>
    match ← links (.look holder) with
    | none => return .error .noConnection
    | some (connection, false) => return .ok connection
    | some (_, true) =>
      match deployment.registry.resolve session.host session.role with
      | .error error => return .error (.resolve error)
      | .ok target =>
        match ← service .stopping with
        | true => return .error .stopping
        | false =>
          match ← links (.dial target) with
          | none => return .error .connect
          | some fresh =>
            match ← stillTheLiveSessionConnection session holder with
            | .error error =>
              links (.hangUp fresh.id)
              return .error error
            | .ok () =>
              links (.replace holder fresh)
              return .ok fresh

/-- `Bastion::connection_for`. -/
def connectionFor (session : Session) : Prog (Except MediationError Connection) := do
  match ← links (.holderOf session.id) with
  | none => return .error .noConnection
  | some holder =>
    service (.lock (.holder holder))
    let connection ← connectionUnder deployment session holder
    service (.unlock (.holder holder))
    return connection

/-- Closes what a holder that is no longer a session's holds. -/
def closeHolder (holder : Nat) : Prog Unit := do
  service (.lock (.holder holder))
  match ← links (.look holder) with
  | none => service (.unlock (.holder holder))
  | some (connection, _) =>
    links (.hangUp connection.id)
    service (.unlock (.holder holder))

def closeHolders : List Nat → Prog Unit
  | [] => return ()
  | holder :: rest => do
    closeHolder holder
    closeHolders rest

/-! ## Running -/

/-- Whether a receipt and a payload belong together, as `Runs::transfer`
checks. -/
def Payload.suits (payload : Payload) (operation : Operation) : Bool :=
  match operation, payload with
  | .download _, .download => true
  | .fileInfo _ _, .fileInfo => true
  | .upload _ source _ _, .upload input =>
    source.bytes = input.identity.bytes && source.sha256 = input.identity.sha256
  | _, _ => false

/-- The check both `Runs::start` and `Runs::transfer` begin with. -/
def wrongTarget (receipt : Receipt) (connection : Connection) : Option RunError :=
  if receipt.authorization.who.host ≠ connection.host ∨
      receipt.authorization.who.role ≠ connection.role then
    some (.wrongTarget receipt.authorization.sequence connection.host connection.role)
  else none

/-- `Runs::start`, reached through `Runs::run`. -/
def start (session : SessionId) (connection : Connection) (receipt : Receipt) :
    Prog (Except RunError RunId) :=
  if receipt.action.kind ≠ .execute then return .error .wrongOperation
  else
    match wrongTarget receipt connection with
    | some error => return .error error
    | none => do
      match ← runs (.openChannel connection) with
      | false => return .error .channel
      | true => runs (.register session receipt connection none)

/-- `Runs::transfer`, up to the registration. -/
def transfer (session : SessionId) (connection : Connection) (receipt : Receipt)
    (payload : Payload) : Prog (Except RunError RunId) :=
  match wrongTarget receipt connection with
  | some error => return .error error
  | none =>
    if payload.suits receipt.action.operation then
      runs (.register session receipt connection (some payload))
    else return .error .wrongOperation

/-- What an admission leads to: `run_it` for a command, `transfer_admitted`
for a transfer. -/
def perform (session : Session) (admission : Admission) (payload : Option Payload) :
    Prog (Except MediationError Executed) :=
  match admission with
  | .held executed => return .ok executed
  | .ready decision receipt approvedBy => do
    match ← connectionFor deployment session with
    | .error error => return .error error
    | .ok connection =>
      let run ← match payload with
        | none => start session.id connection receipt
        | some payload => transfer session.id connection receipt payload
      match run with
      | .error error => return .error (.run error)
      | .ok run => return .ok (.ran decision run approvedBy)

/-- What a caller asks to be done. -/
inductive Work
  | exec (argv : List String)
  | download (path : RemotePath)
  | fileInfo (path : RemotePath) (operation : InfoOperation)
  | upload (path : RemotePath) (input : PreparedUpload) (overwrite : Bool)
      (stagingPath : Option RemotePath)

/-- Whether a staging path can be used for a replacement at `path`. -/
def stagingRefused (path : RemotePath) (overwrite : Bool) (stagingPath : Option RemotePath) : Bool :=
  stagingPath.any (fun stage => !overwrite || stage = path || stage.parent ≠ path.parent)

/-- The action each entry point builds. -/
def Work.action : Work → Except MediationError Action
  | .exec argv => ((Command.new argv).map Action.execute).mapError .command
  | .download path => (Action.download path).mapError .command
  | .fileInfo path operation => (Action.fileInfo path operation).mapError .command
  | .upload path input overwrite stagingPath =>
    if stagingRefused path overwrite stagingPath then .error .invalidStagingPath
    else (Action.uploadWithStaging path input.identity overwrite stagingPath).mapError .command

def Work.payload : Work → Option Payload
  | .exec _ => none
  | .download _ => some .download
  | .fileInfo .. => some .fileInfo
  | .upload _ input _ _ => some (.upload input)

/-- `exec_intended`, `download_intended`, `file_info_intended` and
`upload_with_staging_intended`. -/
def submit (principal : PrincipalId) (session : SessionId) (agentIntent : CommandIntent)
    (work : Work) : Prog (Except MediationError Executed) := do
  match ← service .enter with
  | false => return .error .busy
  | true =>
    match ← authorizeAction deployment principal session agentIntent work.action with
    | .error error => return .error error
    | .ok (session, admission) => perform deployment session admission work.payload

/-! ## Housekeeping -/

/-- The requests a sweep keeps. Only one that is not forgettable is asked
about. -/
def livingRequests (reading : Nat) : Approvals.Requests → Prog (List RequestId)
  | [] => return []
  | held :: rest =>
    if held.forgettable reading then livingRequests reading rest
    else do
      let lives ← sessions (.holds held.asked.session)
      let kept ← livingRequests reading rest
      return if lives then held.asked.id :: kept else kept

/-- The agreements a sweep keeps. -/
def livingAgreements (reading : Nat) : Approvals.Agreements → Prog (List AgreementId)
  | [] => return []
  | agreement :: rest =>
    if agreement.until_ ≤ reading then livingAgreements reading rest
    else do
      let lives ← sessions (.holds agreement.session)
      let kept ← livingAgreements reading rest
      return if lives then agreement.id :: kept else kept

/-- `Approvals::sweep`. -/
def sweepApprovals : Prog Unit := do
  let reading ← service .now
  let held ← requests .lock
  let kept ← livingRequests reading held
  requests (.retain kept)
  let agreements ← standing .lock
  let kept ← livingAgreements reading agreements
  standing (.retain kept)

/-- `Bastion::close_orphaned`. -/
def closeOrphaned : Prog Unit := do
  match ← service .enter with
  | false => return ()
  | true =>
    sessions .sweep
    service (.lock .publishing)
    let live ← sessions .live
    let orphaned ← links (.removeOrphans live)
    service (.unlock .publishing)
    closeHolders orphaned

/-- `Bastion::reclaim`. Completions it writes are those of `account`. -/
def reclaim : Prog Unit := do
  closeOrphaned
  match ← service .enter with
  | false => return ()
  | true =>
    sweepApprovals
    let _ ← ledger .reclaim
    return ()

/-! ## Sessions -/

/-- `Bastion::check_account`. -/
def checkAccount (host : HostId) (role : RoleId) (accessClass : AccessClass) :
    Except MediationError Target :=
  match deployment.registry.resolve host role with
  | .error error => .error (.resolve error)
  | .ok target => if target.accessClass ≠ accessClass then .error .accountMismatch else .ok target

/-- `Bastion::open_session`. -/
def openSession (principal : PrincipalId) (host : HostId) (role : RoleId) (purpose : Purpose)
    (accessClass : AccessClass) : Prog (Except MediationError Session) :=
  match checkAccount deployment host role accessClass with
  | .error error => return .error error
  | .ok target => do
    match ← service .enter with
    | false => return .error .busy
    | true =>
      match ← sessions (.reserve principal) with
      | .error error => return .error (.tooManySessions error)
      | .ok () =>
        match ← links (.dial target) with
        | none =>
          sessions (.release principal)
          return .error .connect
        | some connection =>
          match ← service .enter with
          | false =>
            sessions (.release principal)
            links (.hangUp connection.id)
            return .error .busy
          | true =>
            service (.lock .publishing)
            let session ← sessions (.publish principal host role purpose accessClass)
            links (.insert session.id connection)
            service (.unlock .publishing)
            match ← ledger (.record session.attribution
                (.sessionOpened session.purpose.text session.accessClass)) with
            | .error error => return .error (.audit error)
            | .ok _ =>
              reclaim
              return .ok session

/-- Lets go of a connection taken out of the map. -/
def closeRemoved (holder : Option Nat) : Prog Unit :=
  match holder with
  | none => return ()
  | some holder => closeHolder holder

/-- `Bastion::close_session`. -/
def closeSession (principal : PrincipalId) (id : SessionId) : Prog (Except MediationError Unit) := do
  match ← service .enter with
  | false => return .error .busy
  | true =>
    service (.lock .publishing)
    match ← sessions (.useSession id principal) with
    | .error error =>
      service (.unlock .publishing)
      return .error (.session error)
    | .ok session =>
      match ← ledger (.record session.attribution .sessionClosed) with
      | .error error =>
        service (.unlock .publishing)
        return .error (.audit error)
      | .ok _ =>
        match ← sessions (.close id principal) with
        | .error error =>
          service (.unlock .publishing)
          return .error (.session error)
        | .ok () =>
          let holder ← links (.remove id)
          service (.unlock .publishing)
          closeRemoved holder
          reclaim
          return .ok ()

/-- `Bastion::terminate_session`. The session's lock is held while the
removal is recorded. -/
def terminateSession (id : SessionId) (operator : PrincipalId) :
    Prog (Except MediationError Unit) := do
  match ← service .enter with
  | false => return .error .busy
  | true =>
    service (.lock .publishing)
    match ← sessions (.claim id) with
    | none =>
      service (.unlock .publishing)
      return .error (.session .unknown)
    | some session =>
      match ← ledger (.record session.attribution (.sessionTerminated operator)) with
      | .error error =>
        sessions .abandon
        service (.unlock .publishing)
        return .error (.audit error)
      | .ok _ =>
        sessions (.removeClaimed id)
        let holder ← links (.remove id)
        service (.unlock .publishing)
        closeRemoved holder
        reclaim
        return .ok ()

/-! ## Approvals -/

/-- `Bastion::decide`. -/
protected def decide (request : RequestId) (approver : Approver) (agreed : Bool) :
    Prog (Except MediationError Unit) := do
  let answer ← applyAnswer request approver agreed
  service .leave
  return answer.map (fun _ => ())

/-- `Bastion::standing_until`. -/
def standingUntil (session : SessionId) (forMillis : Option Nat) : Prog Nat := do
  let reading ← service .now
  let until_ := satAdd reading (min (forMillis.getD deployment.standingCap) deployment.standingCap)
  match ← sessions (.endsBy session) with
  | none => return until_
  | some ends => return min until_ ends

/-- `Bastion::approve_session`. -/
def approveSession (request : RequestId) (who : String) (forMillis : Option Nat) :
    Prog (Except MediationError AgreementId) := do
  match ← applyAnswer request (.human who) true with
  | .error error =>
    service .leave
    return .error error
  | .ok answer =>
    let until_ ← standingUntil deployment answer.asked.session forMillis
    let reading ← service .now
    let agreement ← standing (.grant reading answer.asked.session who until_)
    service .leave
    return .ok agreement

/-- `Bastion::revoke_standing`. -/
def revokeStanding (agreement : AgreementId) : Prog Bool :=
  standing (.revoke agreement)

/-- `Bastion::stop`. -/
def stop : Prog Unit := do
  service .stop
  runs .stop

/-! ## What is called -/

/-- A call of the service. `decide` answers for a person: its callers name one,
and only a standing agreement answers as itself. -/
inductive Call
  | openSession (principal : PrincipalId) (host : HostId) (role : RoleId) (purpose : Purpose)
      (accessClass : AccessClass)
  | authorize (principal : PrincipalId) (session : SessionId) (agentIntent : CommandIntent)
      (action : Except MediationError Action)
  | submit (principal : PrincipalId) (session : SessionId) (agentIntent : CommandIntent)
      (work : Work)
  | decide (request : RequestId) (approver : Approver) (agreed : Bool)
      (person : approver.agreement = none)
  | approveSession (request : RequestId) (who : String) (forMillis : Option Nat)
  | revokeStanding (agreement : AgreementId)
  | closeSession (principal : PrincipalId) (session : SessionId)
  | terminateSession (session : SessionId) (operator : PrincipalId)
  | reclaim
  | stop
  | account (who : Attribution) (event : Event) (about : event.isAccount = true)

/-- What a call answers. -/
inductive Reply
  | opened (result : Except MediationError Session)
  | admitted (result : Except MediationError (Session × Admission))
  | executed (result : Except MediationError Executed)
  | decided (result : Except MediationError Unit)
  | agreed (result : Except MediationError AgreementId)
  | withdrew (was : Bool)
  | ended (result : Except MediationError Unit)
  | accounted (result : Except AuditError Entry)
  | done

/-- The program of a call. -/
def Call.program : Call → Prog Reply
  | .openSession principal host role purpose accessClass =>
    return .opened (← Bastion.openSession deployment principal host role purpose accessClass)
  | .authorize principal session agentIntent action =>
    return .admitted (← authorizeAction deployment principal session agentIntent action)
  | .submit principal session agentIntent work =>
    return .executed (← Bastion.submit deployment principal session agentIntent work)
  | .decide request approver agreed _ =>
    return .decided (← Bastion.decide request approver agreed)
  | .approveSession request who forMillis =>
    return .agreed (← Bastion.approveSession deployment request who forMillis)
  | .revokeStanding agreement => return .withdrew (← Bastion.revokeStanding agreement)
  | .closeSession principal session => return .ended (← Bastion.closeSession principal session)
  | .terminateSession session operator =>
    return .ended (← Bastion.terminateSession session operator)
  | .reclaim => do
    Bastion.reclaim
    return .done
  | .stop => do
    Bastion.stop
    return .done
  | .account who event _ => return .accounted (← ledger (.record who event))

/-! ## Worlds -/

/-- The service with the calls in it. -/
abbrev World : Type 1 := Interleaving.World Step Call Choice Reply Service

abbrev BastionMove : Type := Interleaving.Move Call Choice Happening

/-- A service nobody has called yet. -/
def World.new (clock : Nat) : World := ⟨Service.new deployment clock, []⟩

/-- Reached by some order of any calls' steps, and whatever else happens. -/
def Reachable (world : World) : Prop :=
  ∃ clock, Interleaving.Runs (semantics deployment) (Call.program deployment) (fun _ _ => True)
    (World.new deployment clock) world

end McpSsh.Bastion
