import McpSsh.Audit.Record
import McpSsh.Bastion.State

/-!
# The run store

What `Runs` holds with the sessions and the record around it, and one step for
each critical section. The records' lock is kept from the check of the stop flag
until the run is among those being read; every other hold of it is one step.

A run's reader is a task of the store's own, so what it does is a `Happening`.
What it reads is the target's choice, and so is when it settles. `lives` has
every run ever registered: a reader and a waiting caller share a run that the
store may have let go of. `refused` is a history variable: the outcomes the
record was asked to take, and would not.
-/

namespace McpSsh.RunStore

open Bastion (Deployment RunError)
open Ledger (Record)

/-- Most completions being recorded at once. -/
def completionPermits : Nat := 64

/-- How far a run's reader has got. It starts once the run is registered, reads
until the run settles, waits for a permit, has the completion recorded, and
leaves the readers. -/
inductive Reader
  | registered
  | reading
  | settled
  | recording
  | recorded
  | gone
  deriving DecidableEq

/-- One execution, as its reader writes it and its callers read it. -/
structure Live where
  id : RunId
  authorization : Authorization
  state : RunState
  stdout : Stream
  stderr : Stream
  file : Option Transferred
  info : Option FileInfo
  reader : Reader
  deriving DecidableEq

/-- A stream nothing was read from. -/
def nothingRead : Stream := ⟨"", false, 0, none⟩

/-- A run as it is registered. -/
def Live.new (id : RunId) (authorization : Authorization) : Live where
  id
  authorization
  state := .running
  stdout := nothingRead
  stderr := nothingRead
  file := none
  info := none
  reader := .registered

/-- `snapshot_of`. -/
def Live.snapshot (live : Live) : Outcome where
  run := live.id
  authorization := live.authorization
  proof := some live.authorization.sequence
  state := live.state
  stdout := live.stdout
  stderr := live.stderr
  file := live.file
  info := live.info

@[simp] theorem Live.snapshot_run (live : Live) : live.snapshot.run = live.id := rfl

@[simp] theorem Live.snapshot_authorization (live : Live) :
    live.snapshot.authorization = live.authorization := rfl

@[simp] theorem Live.snapshot_stillRunning (live : Live) :
    live.snapshot.stillRunning = decide (live.state = .running) := rfl

/-- The store, the sessions and the record. `admitting` is the call that keeps
the records' lock, and the run it is registering. -/
structure Service where
  clock : Nat
  sessions : Sessions
  record : Record
  lives : List Live
  held : List RunId
  admitting : Option (Nat × RunId)
  reading : List RunId
  stopping : Bool
  permits : Nat
  refused : List (Outcome × AuditError)

/-- A service that has just started. -/
def Service.new (deployment : Deployment) (clock : Nat) : Service where
  clock
  sessions := ⟨[], []⟩
  record := Record.new deployment.genesis
  lives := []
  held := []
  admitting := none
  reading := []
  stopping := false
  permits := completionPermits
  refused := []

/-- Why a run is let go of: its caller has been given its outcome, or nobody
can ask for it any more. -/
inductive Why
  | collected
  | orphaned
  deriving DecidableEq

/-- What a call is answered that is not answered by a run. -/
inductive Error
  | busy
  | run (error : RunError)
  | unknown (run : RunId)
  | session (error : SessionError)
  | audit (error : AuditError)
  | unaccounted (run : RunId) (state : RunState) (source : AuditError)
  deriving DecidableEq

/-! ## Steps -/

inductive Step : Type → Type
  /-- A permit of the worker pool. -/
  | enter : Step Bool
  | useSession (id : SessionId) (principal : PrincipalId) : Step (Except SessionError Session)
  | holds (id : SessionId) : Step Bool
  | sweep : Step Unit
  | close (id : SessionId) (principal : PrincipalId) : Step (Except SessionError Unit)
  | recordSessionClosed (session : Session) : Step (Except AuditError Unit)
  /-- `remove_recorded`, with the record of the termination. -/
  | terminate (id : SessionId) (operator : PrincipalId) : Step (Except Error Unit)
  /-- A registration, up to the records. -/
  | register (receipt : Receipt) : Step (Except RunError RunId)
  /-- The rest of it: the run is being read, and its reader starts. -/
  | enlist (run : RunId) : Step Unit
  /-- Whether the records have a run. -/
  | find (run : RunId) : Step Bool
  | belongsTo (run : RunId) (session : SessionId) : Step Bool
  | authorization (run : RunId) : Step (Option Authorization)
  | outstanding : Step (List RunId)
  | forget (run : RunId) (why : Why) : Step Bool
  | stop : Step Unit
  | unfinished : Step (List RunId)
  /-- What a run that was found looks like now. -/
  | snapshot (run : RunId) : Step (Option Outcome)
  | recordOutcome (outcome : Outcome) : Step (Except AuditError Unit)
  | reclaimLedger : Step (Except AuditError Unit)

/-- What is left open when a step is taken: the random bytes it would draw, and
the answer of whatever is outside the service. -/
structure Choice where
  draw : Nat
  accepts : Bool

namespace Service

variable (deployment : Deployment) (service : Service)

/-- The run under an identifier, if there ever was one. -/
def find (run : RunId) : Option Live := service.lives.find? (·.id = run)

/-- A ledger operation, and what it answers. -/
def writes (operation : Ledger.Operation) (accepts : Bool) : Except AuditError Unit × Service :=
  (((operation.perform deployment.format deployment.limits service.record.alive service.clock
      accepts service.record.state).map (fun _ => ())).mapError Prod.fst,
    { service with
      record := service.record.perform deployment.format deployment.limits operation
        service.clock accepts })

/-- `Ledger::record_outcome`. -/
def recordOutcome (outcome : Outcome) (accepts : Bool) : Except AuditError Unit × Service :=
  match service.writes deployment (.recordOutcome outcome) accepts with
  | (.ok (), after) => (.ok (), after)
  | (.error error, after) =>
    (.error error, { after with refused := (outcome, error) :: after.refused })

/-- One run as its reader leaves it. -/
def put (live : Live) : Service :=
  { service with
    lives := service.lives.map (fun other => if other.id = live.id then live else other) }

/-- Whether an authorization can be presented by a receipt: it was minted here,
its proof is alive, and no run was registered with it. A receipt is taken by
value, so it is spent once. -/
def unspent (authorized : Authorization) : Bool :=
  decide (authorized ∈ service.record.minted) && service.record.alive authorized.sequence &&
    service.lives.all (·.authorization.sequence ≠ authorized.sequence)

/-- Whether a step can take the records' lock. -/
def unlocked : Bool := service.admitting.isNone

end Service

variable (deployment : Deployment) (tid : Nat) (choice : Choice)

/-- One step of one call. It cannot be taken while another call has its lock. -/
def Step.run {β : Type} (service : Service) : Step β → Option (β × Service)
  | .enter => some (choice.accepts, service)
  | .useSession id principal =>
    match service.sessions.useSession service.clock id principal with
    | (answer, sessions) => some (answer, { service with sessions })
  | .holds id => some (service.sessions.holds service.clock id, service)
  | .sweep => some ((), { service with sessions := service.sessions.sweep service.clock })
  | .close id principal =>
    match service.sessions.close id principal with
    | (answer, sessions) => some (answer, { service with sessions })
  | .recordSessionClosed session =>
    some (service.writes deployment (.recordSessionClosed session) choice.accepts)
  | .terminate id operator =>
    match service.sessions.find id with
    | none => some (.error (.session .unknown), service)
    | some session =>
      match service.writes deployment (.recordSessionTerminated session operator)
          choice.accepts with
      | (.error error, after) => some (.error (.audit error), after)
      | (.ok (), after) => some (.ok (), { after with sessions := after.sessions.remove id })
  | .register receipt =>
    if service.unlocked && service.unspent receipt.authorization &&
        (service.find ⟨choice.draw⟩).isNone then
      if service.stopping then some (.error .stopping, service)
      else
        let live := Live.new ⟨choice.draw⟩ receipt.authorization
        some (.ok live.id, { service with
          lives := live :: service.lives
          held := live.id :: service.held
          admitting := some (tid, live.id) })
    else none
  | .enlist run =>
    if service.admitting = some (tid, run) then
      some ((), { (match service.find run with
          | none => service
          | some live => service.put { live with reader := .reading }) with
        admitting := none
        reading := run :: service.reading })
    else none
  | .find run => if service.unlocked then some (decide (run ∈ service.held), service) else none
  | .belongsTo run session =>
    if service.unlocked then
      some (decide (run ∈ service.held) &&
        (service.find run).any (·.authorization.who.session = session), service)
    else none
  | .authorization run =>
    if service.unlocked then
      some (if run ∈ service.held then (service.find run).map Live.authorization else none, service)
    else none
  | .outstanding => if service.unlocked then some (service.held, service) else none
  | .forget run _ =>
    if service.unlocked then
      if run ∈ service.held ∧ (service.find run).any (·.state ≠ .running) then
        some (true, { service with held := service.held.filter (· ≠ run) })
      else some (false, service)
    else none
  | .stop => if service.unlocked then some ((), { service with stopping := true }) else none
  | .unfinished => some (service.reading, service)
  | .snapshot run => some ((service.find run).map Live.snapshot, service)
  | .recordOutcome outcome => some (service.recordOutcome deployment outcome choice.accepts)
  | .reclaimLedger => some (service.writes deployment .reclaim choice.accepts)

/-! ## What happens by itself -/

/-- The clock moves on; other calls use the sessions and the record; a map is
laid out anew; or a run's reader does its next thing. -/
inductive Happening
  | tick (later : Nat)
  | reserve (principal : PrincipalId)
  | release (principal : PrincipalId)
  | publish (session : Session)
  | useSession (id : SessionId) (principal : PrincipalId)
  | writes (operation : Ledger.Operation) (accepts : Bool)
  | rehashSessions (sessions : List Session)
  | rehashRuns (held : List RunId)
  /-- The reader has read more from the target. -/
  | reads (run : RunId) (stdout stderr : Stream)
  /-- The channel is closed, or the transfer is over. -/
  | settles (run : RunId) (state : RunState) (stdout stderr : Stream) (file : Option Transferred)
      (info : Option FileInfo)
  /-- The announcement gets a permit, and its worker starts. -/
  | permitted (run : RunId)
  /-- The worker records what the run came to. -/
  | tells (run : RunId) (accepts : Bool)
  /-- The worker is done: the permit is given back, and the run is read no more. -/
  | leaves (run : RunId)

/-- Whether an operation is one that some other call can ask the ledger for.
Outcomes are recorded by the calls and readers here, and a proof that a run
still in the store or still read carries is not dropped. -/
def Service.Others (service : Service) : Ledger.Operation → Prop
  | .recordOutcome _ => False
  | .drop sequence => sequence < service.record.committed.length ∧
      ∀ live ∈ service.lives, live.id ∈ service.held ∨ live.reader ≠ .gone →
        live.authorization.sequence ≠ sequence
  | operation => service.record.Offers operation

instance (record : Record) (authorized : Authorization) (proof : Option Nat) :
    Decidable (record.Presentable authorized proof) :=
  inferInstanceAs (Decidable (_ ∨ _))

instance (service : Service) (operation : Ledger.Operation) : Decidable (service.Others operation) :=
  match operation with
  | .recordIntent .. | .recordApproval .. | .recordAnswer _ | .recordEvaluation _
  | .recordSessionOpened _ | .recordSessionClosed _ | .recordSessionTerminated .. | .sealBefore _
  | .reclaim => .isTrue trivial
  | .recordOutcome _ => .isFalse id
  | .recordCancellation _ authorized proof =>
    inferInstanceAs (Decidable (service.record.Presentable authorized proof))
  | .drop _ => inferInstanceAs (Decidable (_ ∧ _))

/-- Whether an identifier names nothing yet. -/
def Service.unnamed (service : Service) (id : SessionId) : Bool :=
  (service.sessions.find id).isNone && service.record.minted.all (·.who.session ≠ id)

/-- A reader's next thing, if it has got that far. -/
def Service.reader (service : Service) (run : RunId) (at' : Reader) (next : Live → Service) :
    Option Service :=
  ((service.find run).filter (·.reader = at')).map next

def Happening.run (service : Service) : Happening → Option Service
  | .tick later => if service.clock ≤ later then some { service with clock := later } else none
  | .reserve principal =>
    some { service with sessions :=
      (service.sessions.reserve deployment.sessionsPerPrincipal service.clock principal).2 }
  | .release principal => some { service with sessions := service.sessions.release principal }
  | .publish session =>
    if service.unnamed session.id then
      some { service with sessions := service.sessions.publish session }
    else none
  | .useSession id principal =>
    some { service with sessions := (service.sessions.useSession service.clock id principal).2 }
  | .writes operation accepts =>
    if service.Others operation then some (service.writes deployment operation accepts).2 else none
  | .rehashSessions sessions =>
    if service.sessions.held.isPerm sessions then
      some { service with sessions := { service.sessions with held := sessions } }
    else none
  | .rehashRuns held =>
    if service.unlocked && service.held.isPerm held then some { service with held } else none
  | .reads run stdout stderr =>
    service.reader run .reading (fun live => service.put { live with stdout, stderr })
  | .settles run state stdout stderr file info =>
    if state = .running then none
    else service.reader run .reading (fun live =>
      service.put { live with state, stdout, stderr, file, info, reader := .settled })
  | .permitted run =>
    if service.permits = 0 then none
    else service.reader run .settled (fun live =>
      { service.put { live with reader := .recording } with permits := service.permits - 1 })
  | .tells run accepts =>
    service.reader run .recording (fun live =>
      (service.recordOutcome deployment live.snapshot accepts).2.put { live with reader := .recorded })
  | .leaves run =>
    service.reader run .recorded (fun live =>
      { service.put { live with reader := .gone } with
        permits := service.permits + 1
        reading := service.reading.filter (· ≠ run) })

/-- What steps and the rest of the world do to the service. -/
def semantics : Interleaving.Semantics Step Choice Happening Service where
  run := fun tid choice step service => step.run deployment tid choice service
  environment := fun happening service => happening.run deployment service

end McpSsh.RunStore
