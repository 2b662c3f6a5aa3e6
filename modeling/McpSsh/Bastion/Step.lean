import McpSsh.Bastion.State

/-!
# Steps

One step is one critical section, or one read outside any. Each part of the
service has its own kind of step and says what the step does to that part
alone; `Step.run` puts the part back, moves the lock, and extends the journal.

A section that ends while its lock stays held says so in `holds`. Nested
sections are therefore several steps: `ask` keeps the request lock when it
finds an agreement to collect, the ledger's steps follow, and `spend` or
`unlock` gives the lock back.
-/

namespace McpSsh.Bastion

open Approvals (Requests Agreements StandingApproval Asking)

/-- What is left open when a step is taken: the sixteen random bytes it would
draw an identifier from, the answer of whatever is outside this service (the
recording boundary, the worker pool, the target), and the proofs kept alive by
references that are not followed here, as those of a receipt or of a run. -/
structure Choice where
  draw : Nat
  accepts : Bool
  extra : Nat → Bool

/-- What a step does to the part it is about. -/
structure Effect (π β : Type) where
  answer : β
  part : π
  holds : Bool
  notes : List Note
  proofs : List Nat

/-- A step that only answers and changes its part. -/
def Effect.plain {π β : Type} (answer : β) (part : π) : Effect π β :=
  ⟨answer, part, false, [], []⟩

/-! ## The service itself -/

inductive ServiceStep : Type → Type
  /-- The clock, read outside any lock. -/
  | now : ServiceStep Nat
  | stopping : ServiceStep Bool
  | stop : ServiceStep Unit
  /-- A permit of the worker pool. -/
  | enter : ServiceStep Bool
  | lock (which : Lock) : ServiceStep Unit
  | unlock (which : Lock) : ServiceStep Unit
  /-- A call lets go of the proofs it holds. -/
  | leave : ServiceStep Unit

/-! ## Sessions -/

inductive SessionStep : Type → Type
  | reserve (principal : PrincipalId) : SessionStep (Except TooManySessions Unit)
  /-- An `Opening` is dropped unused. -/
  | release (principal : PrincipalId) : SessionStep Unit
  | publish (principal : PrincipalId) (host : HostId) (role : RoleId) (purpose : Purpose)
      (accessClass : AccessClass) : SessionStep Session
  | useSession (id : SessionId) (principal : PrincipalId) :
      SessionStep (Except SessionError Session)
  | holds (id : SessionId) : SessionStep Bool
  | endsBy (id : SessionId) : SessionStep (Option Nat)
  | close (id : SessionId) (principal : PrincipalId) : SessionStep (Except SessionError Unit)
  | sweep : SessionStep Unit
  | live : SessionStep (List SessionId)
  /-- `remove_recorded`, up to its callback. -/
  | claim (id : SessionId) : SessionStep (Option Session)
  | removeClaimed (id : SessionId) : SessionStep Unit
  | abandon : SessionStep Unit

/-- The session `Opening::open` makes. -/
def sessionOpened (deployment : Deployment) (clock draw : Nat) (principal : PrincipalId)
    (host : HostId) (role : RoleId) (purpose : Purpose) (accessClass : AccessClass) : Session :=
  { id := ⟨draw⟩, principal, host, role, purpose, accessClass
    openedAt := clock, lastUsed := clock, lifetime := deployment.lifetime }

def SessionStep.effect (deployment : Deployment) (tid clock draw : Nat) (part : SessionPart)
    {β : Type} : SessionStep β → Effect SessionPart β
  | .reserve principal =>
    match part.store.reserve deployment.sessionsPerPrincipal clock principal with
    | (.error error, store) => .plain (.error error) { part with store }
    | (.ok (), store) =>
      .plain (.ok ()) ⟨store, (tid, principal) :: part.openings⟩
  | .release principal =>
    .plain () ⟨part.store.release principal, part.openings.erase (tid, principal)⟩
  | .publish principal host role purpose accessClass =>
    let session := sessionOpened deployment clock draw principal host role purpose accessClass
    { answer := session
      part := ⟨part.store.publish session, part.openings.erase (tid, principal)⟩
      holds := false
      notes := [.opened tid session]
      proofs := [] }
  | .useSession id principal =>
    match part.store.useSession clock id principal with
    | (answer, store) => .plain answer { part with store }
  | .holds id => .plain (part.store.holds clock id) part
  | .endsBy id => .plain (part.store.endsBy clock id) part
  | .close id principal =>
    match part.store.close id principal with
    | (answer, store) => .plain answer { part with store }
  | .sweep => .plain () { part with store := part.store.sweep clock }
  | .live => .plain (part.store.live clock) part
  | .claim id =>
    match part.store.find id with
    | none => .plain none part
    | some session => ⟨some session, part, true, [], []⟩
  | .removeClaimed id => .plain () { part with store := part.store.remove id }
  | .abandon => .plain () part

/-! ## Requests -/

inductive RequestStep : Type → Type
  /-- `ask_with`, up to its callback. -/
  | ask (intended : Intended) : RequestStep Asking
  /-- `redeem_action_with`, up to its callback. -/
  | redeem (id : RequestId) (principal : PrincipalId) (action : Digest) :
      RequestStep (Except ApprovalError Grant)
  /-- What follows a callback that succeeded. -/
  | spend (id : RequestId) : RequestStep Unit
  | unlock : RequestStep Unit
  /-- `decide`, up to the question whether the session can still redeem. -/
  | decidable (id : RequestId) : RequestStep (Except ApprovalError (Approvals.Held × Nat))
  | answer (held : Approvals.Held) (reading : Nat) (approver : Approver) (agreed : Bool) :
      RequestStep Answer
  | markRecorded (id : RequestId) : RequestStep Bool
  /-- `sweep`, up to the questions which sessions can still redeem. -/
  | lock : RequestStep Requests
  | retain (kept : List RequestId) : RequestStep Unit

/-- What an ask did, for the journal. -/
def askNotes (config : Approvals.Config) (tid clock : Nat) (intended : Intended)
    (requests : Requests) : Asking → List Note
  | .collect grant => [.found tid grant.request clock]
  | .answered (.ok (.waiting (.new asked))) => [.raised tid intended asked]
  | .answered (.ok (.waiting (.pending asked))) => [.joined tid asked.id]
  | .answered (.ok (.lapsed ask by_)) =>
    match (requests.retain clock).lapsed clock intended.decision.session
        (config.actionOf intended) with
    | some (id, _) => [.raised tid intended ask.asked, .lapsed tid id by_]
    | none => []
  | _ => []

def RequestStep.effect (config : Approvals.Config) (tid clock draw : Nat) (part : RequestPart)
    {β : Type} : RequestStep β → Effect RequestPart β
  | .ask intended =>
    match config.ask clock ⟨draw⟩ intended part.requests with
    | (.collect grant, requests) =>
      ⟨.collect grant, ⟨requests, some grant.request⟩, true, [.found tid grant.request clock], []⟩
    | (asking, requests) =>
      ⟨asking, { part with requests }, false,
        askNotes config tid clock intended part.requests asking, []⟩
  | .redeem id principal action =>
    match part.requests.redeem clock id principal action with
    | .error error => .plain (.error error) part
    | .ok grant => ⟨.ok grant, { part with collecting := some id }, true, [.found tid id clock], []⟩
  | .spend id => .plain () ⟨part.requests.spend id, none⟩
  | .unlock => .plain () { part with collecting := none }
  | .decidable id =>
    match part.requests.decidable clock id with
    | .error error => .plain (.error error) part
    | .ok held => ⟨.ok (held, clock), part, true, [], []⟩
  | .answer held reading approver agreed =>
    let answer : Answer := ⟨held.asked, approver, agreed, held.proof⟩
    { answer
      part := { part with
        requests := part.requests.update held.asked.id (config.answer reading approver agreed) }
      holds := false
      notes := [.answered tid answer (satAdd reading config.windows.redeemWithin)]
      proofs := held.proof.toList }
  | .markRecorded id =>
    match part.requests.markRecorded id with
    | (marked, requests) => .plain marked { part with requests }
  | .lock => ⟨part.requests, part, true, [], []⟩
  | .retain kept =>
    .plain () { part with requests := part.requests.filter (·.asked.id ∈ kept) }

/-! ## Standing agreements -/

inductive StandingStep : Type → Type
  /-- `use_standing`, up to its callback. -/
  | select (session : SessionId) : StandingStep (Option StandingApproval)
  | unlock : StandingStep Unit
  | grant (reading : Nat) (session : SessionId) (who : String) (until_ : Nat) :
      StandingStep AgreementId
  | revoke (id : AgreementId) : StandingStep Bool
  | lock : StandingStep Agreements
  | retain (kept : List AgreementId) : StandingStep Unit

def StandingStep.effect (tid clock draw : Nat) (live : SessionId → Option Session)
    (standing : Agreements) {β : Type} : StandingStep β → Effect Agreements β
  | .select session =>
    match standing.select clock session with
    | none => .plain none standing
    | some agreement =>
      ⟨some agreement, standing, true, [.selected tid agreement clock], []⟩
  | .unlock => .plain () standing
  | .grant reading session who until_ =>
    let agreement : StandingApproval := ⟨⟨draw⟩, session, who, until_, .session⟩
    { answer := agreement.id
      part := standing.grant reading agreement
      holds := false
      notes := [.granted tid ⟨agreement, clock, live session⟩]
      proofs := [] }
  | .revoke id =>
    match standing.revoke id with
    | (revoked, standing) => ⟨revoked, standing, false, if revoked then [.withdrew id] else [], []⟩
  | .lock => ⟨standing, standing, true, [], []⟩
  | .retain kept => .plain () (standing.filter (·.id ∈ kept))

/-! ## The ledger -/

inductive LedgerStep : Type → Type
  | recordIntent (decision : Decision) (agentIntent : CommandIntent) :
      LedgerStep (Except AuditError Intended)
  | thisDeliberation (decided : Nat) (digest : Digest) (session : SessionId) :
      LedgerStep (Except AuditError Unit)
  /-- What `record_approval` appends once its checks have passed. -/
  | recordApproval (intended : Intended) (grant : Grant) :
      LedgerStep (Except AuditError (Receipt × Approver))
  /-- What `record_answer` appends once its check has passed. -/
  | recordAnswer (answer : Answer) : LedgerStep (Except AuditError Entry)
  /-- Any entry that authorizes nothing. -/
  | record (who : Attribution) (event : Event) : LedgerStep (Except AuditError Entry)
  | reclaim : LedgerStep (Except AuditError Unit)

def LedgerStep.effect (deployment : Deployment) (tid clock : Nat) (accepts : Bool)
    (alive : Nat → Bool) (ledger : Ledger.State) {β : Type} :
    LedgerStep β → Effect Ledger.State β
  | .recordIntent decision agentIntent =>
    match ledger.recordIntent deployment.format deployment.limits alive clock accepts decision
        agentIntent with
    | .error (error, ledger) => .plain (.error error) ledger
    | .ok (ledger, intended) =>
      ⟨.ok intended, ledger, false, [.committed intended.entry, .recorded tid intended],
        intended.proof.toList⟩
  | .thisDeliberation decided digest session =>
    .plain (ledger.thisDeliberation alive decided digest session) ledger
  | .recordApproval intended grant =>
    match ledger.append deployment.format deployment.limits alive clock accepts
        intended.decision.session.attribution grant.event with
    | .error (error, ledger) => .plain (.error error) ledger
    | .ok (ledger, entry) =>
      let receipt := Ledger.receiptFor entry intended.decision.session intended.decision.action
      ⟨.ok (receipt, grant.approver), ledger, false,
        [.committed entry, .collected tid intended grant receipt], []⟩
  | .recordAnswer answer =>
    match ledger.append deployment.format deployment.limits alive clock accepts
        answer.asked.attribution answer.event with
    | .error (error, ledger) => .plain (.error error) ledger
    | .ok (ledger, entry) => ⟨.ok entry, ledger, false, [.committed entry], []⟩
  | .record who event =>
    match ledger.append deployment.format deployment.limits alive clock accepts who event with
    | .error (error, ledger) => .plain (.error error) ledger
    | .ok (ledger, entry) => ⟨.ok entry, ledger, false, [.committed entry], []⟩
  | .reclaim =>
    match ledger.reclaim deployment.format deployment.limits alive clock with
    | .error (error, ledger) => .plain (.error error) ledger
    | .ok ledger => .plain (.ok ()) ledger

/-! ## Connections -/

inductive LinkStep : Type → Type
  | dial (target : Target) : LinkStep (Option Connection)
  | insert (session : SessionId) (connection : Connection) : LinkStep Unit
  | remove (session : SessionId) : LinkStep (Option Nat)
  | removeOrphans (live : List SessionId) : LinkStep (List Nat)
  | holderOf (session : SessionId) : LinkStep (Option Nat)
  | isCurrent (session : SessionId) (holder : Nat) : LinkStep Bool
  /-- What a holder holds, and whether the transport has gone. -/
  | look (holder : Nat) : LinkStep (Option (Connection × Bool))
  | replace (holder : Nat) (connection : Connection) : LinkStep Unit
  | hangUp (connection : Nat) : LinkStep Unit

def LinkStep.effect (tid draw : Nat) (accepts : Bool) (part : LinkPart) {β : Type} :
    LinkStep β → Effect LinkPart β
  | .dial target =>
    if accepts then
      let connection : Connection := ⟨draw, target.host, target.role⟩
      ⟨some connection, part, false, [.dialled tid connection], []⟩
    else .plain none part
  | .insert session connection =>
    { answer := ()
      part := { part with
        connections := (session, draw) :: part.connections.filter (·.1 ≠ session)
        holders := ⟨draw, session, connection⟩ :: part.holders }
      holds := false
      notes := [.placed tid draw session, .bound tid session connection]
      proofs := [] }
  | .remove session =>
    .plain (part.connections.lookup session)
      { part with connections := part.connections.filter (·.1 ≠ session) }
  | .removeOrphans live =>
    .plain ((part.connections.filter (·.1 ∉ live)).map (·.2))
      { part with connections := part.connections.filter (·.1 ∈ live) }
  | .holderOf session => .plain (part.connections.lookup session) part
  | .isCurrent session holder => .plain (part.connections.lookup session = some holder) part
  | .look holder =>
    { answer := (part.find holder).map (fun held =>
        (held.connection, part.closed.contains held.connection.id || !accepts))
      part
      holds := true
      notes := []
      proofs := [] }
  | .replace holder connection =>
    { answer := ()
      part := { part with
        holders := part.holders.map (fun held =>
          if held.id = holder then { held with connection } else held) }
      holds := true
      notes := (part.find holder).toList.map (fun held =>
        .bound tid held.session connection)
      proofs := [] }
  | .hangUp connection => .plain () { part with closed := connection :: part.closed }

/-! ## Runs -/

inductive RunStep : Type → Type
  /-- `channel_open_session`, which the target answers. -/
  | openChannel (connection : Connection) : RunStep Bool
  /-- Registering a run, unless the service is stopping. -/
  | register (session : SessionId) (receipt : Receipt) (connection : Connection)
      (payload : Option Payload) : RunStep (Except RunError RunId)
  | stop : RunStep Unit

def RunStep.effect (tid draw : Nat) (accepts : Bool) (part : RunPart) {β : Type} :
    RunStep β → Effect RunPart β
  | .openChannel _ => .plain accepts part
  | .register session receipt connection payload =>
    if part.stopping then .plain (.error .stopping) part
    else
      let run : Run := ⟨⟨draw⟩, receipt.authorization, receipt.action.operation,
        receipt.action.command.argv, connection, payload⟩
      ⟨.ok run.id, { part with runs := run :: part.runs }, false, [.registered tid session run], []⟩
  | .stop => .plain () { part with stopping := true }

/-! ## Steps of the service -/

inductive Step (β : Type) : Type
  | service (step : ServiceStep β)
  | sessions (step : SessionStep β)
  | requests (step : RequestStep β)
  | standing (step : StandingStep β)
  | ledger (step : LedgerStep β)
  | links (step : LinkStep β)
  | runs (step : RunStep β)

/-- How a step uses a lock it may leave held: taking it, or having it. -/
inductive Use
  | takes (which : Lock)
  | has (which : Lock)
  | without

def ServiceStep.use {β : Type} : ServiceStep β → Use
  | .lock which => .takes which
  | .unlock which => .has which
  | _ => .without

def SessionStep.use {β : Type} : SessionStep β → Use
  | .release _ => .without
  | .removeClaimed _ => .has .sessions
  | .abandon => .has .sessions
  | _ => .takes .sessions

def RequestStep.use {β : Type} : RequestStep β → Use
  | .spend _ => .has .requests
  | .unlock => .has .requests
  | .answer .. => .has .requests
  | .retain _ => .has .requests
  | _ => .takes .requests

def StandingStep.use {β : Type} : StandingStep β → Use
  | .unlock => .has .standing
  | .retain _ => .has .standing
  | _ => .takes .standing

def LinkStep.use {β : Type} : LinkStep β → Use
  | .look holder => .has (.holder holder)
  | .replace holder _ => .has (.holder holder)
  | _ => .without

def Step.use {β : Type} : Step β → Use
  | .service step => step.use
  | .sessions step => step.use
  | .requests step => step.use
  | .standing step => step.use
  | .ledger _ => .without
  | .links step => step.use
  | .runs _ => .without

namespace Service

/-- Whether a call can use a lock as a step needs. -/
def permits (service : Service) (tid : Nat) : Use → Bool
  | .takes which => service.locks which = none
  | .has which => service.locks which = some tid
  | .without => true

/-- The locks after a step. -/
def locksAfter (service : Service) (tid : Nat) (holds : Bool) : Use → Lock → Option Nat
  | .takes which => Function.update service.locks which (if holds then some tid else none)
  | .has which => Function.update service.locks which (if holds then some tid else none)
  | .without => service.locks

/-- Which proofs some reference keeps alive. -/
def alive (service : Service) (extra : Nat → Bool) (sequence : Nat) : Bool :=
  service.approvals.requests.any (·.proof = some sequence)
    || service.proofs.any (·.2 = sequence) || extra sequence

end Service

variable (deployment : Deployment) (tid : Nat) (choice : Choice)

def ServiceStep.effect (service : Service) {β : Type} : ServiceStep β → Effect Service β
  | .now => .plain service.clock service
  | .stopping => .plain service.stopping service
  | .stop => .plain () { service with stopping := true }
  | .enter => .plain choice.accepts service
  | .lock _ => ⟨(), service, true, [], []⟩
  | .unlock _ => .plain () service
  | .leave => .plain () { service with proofs := service.proofs.filter (·.1 ≠ tid) }

/-- What a step does to the service, but for the lock and the journal. -/
def Step.effect (service : Service) {β : Type} : Step β → Effect Service β
  | .service step => step.effect tid choice service
  | .sessions step =>
    let effect := step.effect deployment tid service.clock choice.draw service.sessions
    { effect with part := { service with sessions := effect.part } }
  | .requests step =>
    let effect := step.effect deployment.approvals tid service.clock choice.draw service.approvals
    { effect with part := { service with approvals := effect.part } }
  | .standing step =>
    let effect := step.effect tid service.clock choice.draw
      (service.sessions.store.usable service.clock) service.standing
    { effect with part := { service with standing := effect.part } }
  | .ledger step =>
    let effect := step.effect deployment tid service.clock choice.accepts
      (service.alive choice.extra) service.ledger
    { effect with part := { service with ledger := effect.part } }
  | .links step =>
    let effect := step.effect tid choice.draw choice.accepts service.links
    { effect with part := { service with links := effect.part } }
  | .runs step =>
    let effect := step.effect tid choice.draw choice.accepts service.runs
    { effect with part := { service with runs := effect.part } }

/-- One step of one call. It cannot be taken while another call has its lock,
and what it draws has not been drawn before. -/
def Step.run {β : Type} (step : Step β) (service : Service) : Option (β × Service) :=
  if service.journal.unused choice.draw && service.permits tid step.use then
    let effect := step.effect deployment tid choice service
    some (effect.answer, { effect.part with
      locks := service.locksAfter tid effect.holds step.use
      proofs := effect.proofs.map (tid, ·) ++ effect.part.proofs
      journal := service.journal ++ effect.notes })
  else none

/-! ## What happens by itself -/

/-- The clock moves on, or a map that nobody is using is laid out anew. -/
inductive Happening
  | tick (later : Nat)
  | rehashSessions (held : List Session)
  | rehashRequests (requests : Requests)
  | rehashStanding (standing : Agreements)

def Happening.run (service : Service) : Happening → Option Service
  | .tick later => if service.clock ≤ later then some { service with clock := later } else none
  | .rehashSessions held =>
    if service.locks .sessions = none && service.sessions.store.held.isPerm held then
      some { service with sessions := { service.sessions with
        store := { service.sessions.store with held } } }
    else none
  | .rehashRequests requests =>
    if service.locks .requests = none && service.approvals.requests.isPerm requests then
      some { service with approvals := { service.approvals with requests } }
    else none
  | .rehashStanding standing =>
    if service.locks .standing = none && service.standing.isPerm standing then
      some { service with standing }
    else none

/-- What steps and the rest of the world do to the service. -/
def semantics : Interleaving.Semantics Step Choice Happening Service where
  run := fun tid choice step service => step.run deployment tid choice service
  environment := fun happening service => happening.run service

end McpSsh.Bastion
