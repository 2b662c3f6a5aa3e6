import McpSsh.Runs.Calls

/-!
# Looking at a run and cancelling it

What an owner can do with a run besides waiting for it. A run's counters are
read and its cancellation is requested under the records' lock; the request is
recorded before the worker is notified.
-/

namespace McpSsh.RunControl

open Interleaving
open RunStore (Error)

/-- `Cancellation`. -/
inductive Cancellation
  | notRequested
  | requested
  | signalSent
  | signalFailed
  | transferStopped
  deriving DecidableEq

/-- What is counted of a run besides what its outcome has. -/
structure Counters where
  started : Nat
  transferBytes : UInt64
  cancellation : Cancellation
  notified : Bool
  deriving DecidableEq

/-- A bounded view that does not collect or release a result. -/
structure Progress where
  run : RunId
  state : RunState
  elapsedMs : Nat
  stdoutBytes : UInt64
  stderrBytes : UInt64
  transferBytesRead : UInt64
  cancellation : Cancellation
  deriving DecidableEq

/-- The run store with its runs' counters. -/
structure Service where
  runs : RunStore.Service
  counters : RunId → Counters

/-- `Runs::progress`. -/
def Service.progress (service : Service) (run : RunId) : Except Error Progress :=
  match (service.runs.find run).filter (fun _ => run ∈ service.runs.held) with
  | none => .error (.unknown run)
  | some live =>
    let counters := service.counters run
    .ok {
      run
      state := live.state
      elapsedMs := service.runs.clock - counters.started
      stdoutBytes := live.stdout.bytes
      stderrBytes := live.stderr.bytes
      transferBytesRead := counters.transferBytes
      cancellation := counters.cancellation }

/-- A request for a run that is still going, which its worker is told of. -/
def Counters.requested (counters : Counters) : Counters :=
  { counters with
    cancellation :=
      if counters.cancellation = .notRequested then .requested else counters.cancellation
    notified := true }

/-- `Runs::cancel`, up to its last look. -/
def Service.cancel (service : Service) (run : RunId) : Except Error Unit × Service :=
  match (service.runs.find run).filter (fun _ => run ∈ service.runs.held) with
  | none => (.error (.unknown run), service)
  | some live =>
    if live.state = .running then
      (.ok (), { service with
        counters := Function.update service.counters run (service.counters run).requested })
    else (.ok (), service)

inductive ControlStep : Type → Type
  | progress (run : RunId) : ControlStep (Except Error Progress)
  | recordCancellation (run : RunId) (authorized : Authorization) :
    ControlStep (Except AuditError Unit)
  | cancel (run : RunId) : ControlStep (Except Error Unit)

inductive Step (β : Type) : Type
  | runs (step : RunStore.Step β)
  | control (step : ControlStep β)

variable (deployment : Bastion.Deployment) (tid : Nat) (choice : RunStore.Choice)

def ControlStep.run {β : Type} (service : Service) : ControlStep β → Option (β × Service)
  | .progress run =>
    if service.runs.unlocked then some (service.progress run, service) else none
  | .recordCancellation run authorized =>
    match service.runs.writes deployment
        (.recordCancellation run authorized (some authorized.sequence)) choice.accepts with
    | (answer, runs) => some (answer, { service with runs })
  | .cancel run => if service.runs.unlocked then some (service.cancel run) else none

def Step.run {β : Type} (service : Service) : Step β → Option (β × Service)
  | .runs step =>
    (step.run deployment tid choice service.runs).map fun (answer, after) =>
      (answer, { service with runs := after })
  | .control step => step.run deployment choice service

def semantics : Interleaving.Semantics Step RunStore.Choice RunStore.Happening Service where
  run := fun tid choice step service => step.run deployment tid choice service
  environment := fun happening service =>
    (happening.run deployment service.runs).map fun runs => { service with runs }

abbrev Prog : Type → Type 1 := Program Step

/-- `Bastion::progress`. -/
def progress (principal : PrincipalId) (session : SessionId) (run : RunId) :
    Prog (Except Error Progress) := do
  match ← Program.step (.runs (.useSession session principal)) with
  | .error error => return .error (.session error)
  | .ok session =>
    match ← Program.step (.runs (.belongsTo run session.id)) with
    | false => return .error (.unknown run)
    | true => Program.step (.control (.progress run))

/-- `Runs::cancel`. -/
def cancelRun (run : RunId) : Prog (Except Error Progress) := do
  match ← Program.step (.control (.cancel run)) with
  | .error error => return .error error
  | .ok () => Program.step (.control (.progress run))

/-- `Bastion::cancel`. -/
def cancel (principal : PrincipalId) (session : SessionId) (run : RunId) :
    Prog (Except Error Progress) := do
  match ← progress principal session run with
  | .error error => return .error error
  | .ok _ =>
    match ← Program.step (.runs (.authorization run)) with
    | none => return .error (.unknown run)
    | some authorized =>
      match ← Program.step (.control (.recordCancellation run authorized)) with
      | .error error => return .error (.audit error)
      | .ok () =>
        match ← Program.step (.runs (.useSession session principal)) with
        | .error error => return .error (.session error)
        | .ok _ => cancelRun run

end McpSsh.RunControl
