import McpSsh.Runs.Store

/-!
# Calls about runs

Everything that registers a run, waits for one, records what it came to, or
lets go of it. What comes before a registration is the mediated service's, and
so are the connections a session's end closes.
-/

namespace McpSsh.RunStore

open Interleaving
open Bastion (RunError)

abbrev Prog : Type → Type 1 := Program Step

/-! ## One run -/

/-- `Runs::finished`. -/
def finished (run : RunId) : Prog (Option Outcome) := do
  match ← Program.step (.find run) with
  | false => return none
  | true => return (← Program.step (.snapshot run)).filter (fun outcome => !outcome.stillRunning)

/-- `Runs::wait`. -/
def wait (run : RunId) : Prog (Except Error Outcome) := do
  match ← Program.step (.find run) with
  | false => return .error (.unknown run)
  | true =>
    match ← Program.step (.snapshot run) with
    | none => return .error (.unknown run)
    | some outcome => return .ok outcome

/-- `Bastion::account_for`, and `account_for_async` around it. -/
def accountFor (outcome : Outcome) : Prog (Except Error Outcome) :=
  if outcome.stillRunning then return .ok outcome
  else do
    match ← Program.step (.recordOutcome outcome) with
    | .ok () =>
      let _ ← Program.step (.forget outcome.run .collected)
      return .ok outcome
    | .error (.alreadyCompleted _) =>
      match ← finished outcome.run with
      | none => return .error (.audit (.alreadyCompleted outcome.run))
      | some outcome =>
        let _ ← Program.step (.forget outcome.run .collected)
        return .ok outcome
    | .error source => return .error (.unaccounted outcome.run outcome.state source)

/-- What follows a registration in `Runs::run` and `Runs::transfer`, and a
`poll` that may ask: the wait, and what is done with its outcome. -/
def collect (run : RunId) : Prog (Except Error Outcome) := do
  match ← wait run with
  | .error error => return .error error
  | .ok outcome => accountFor outcome

/-- The registration both `Runs::start` and `Runs::transfer` make, and what
their caller does with the run. -/
def execute (receipt : Receipt) : Prog (Except Error Outcome) := do
  match ← Program.step (.register receipt) with
  | .error error => return .error (.run error)
  | .ok run =>
    Program.step (.enlist run)
    collect run

/-- `Bastion::poll`. -/
def poll (principal : PrincipalId) (session : SessionId) (run : RunId) :
    Prog (Except Error Outcome) := do
  match ← Program.step .enter with
  | false => return .error .busy
  | true =>
    match ← Program.step (.useSession session principal) with
    | .error error => return .error (.session error)
    | .ok session =>
      match ← Program.step (.belongsTo run session.id) with
      | false => return .error (.unknown run)
      | true => collect run

/-! ## Housekeeping -/

/-- `Bastion::record_completion`. -/
def recordCompletion (outcome : Outcome) : Prog Bool := do
  match ← Program.step (.recordOutcome outcome) with
  | .ok () | .error (.alreadyCompleted _) => return true
  | .error _ => return false

/-- One run of `Bastion::reclaim_records`. -/
def reclaimRun (run : RunId) : Prog Unit := do
  match ← Program.step (.authorization run) with
  | none => return ()
  | some authorized =>
    match ← finished run with
    | none => return ()
    | some outcome =>
      match ← recordCompletion outcome with
      | false => return ()
      | true =>
        match ← Program.step (.holds authorized.who.session) with
        | true => return ()
        | false =>
          let _ ← Program.step (.forget run .orphaned)
          return ()

def reclaimRuns : List RunId → Prog Unit
  | [] => return ()
  | run :: rest => do
    reclaimRun run
    reclaimRuns rest

/-- `Bastion::reclaim_records`. The sweep of the requests is not followed. -/
def reclaimRecords : Prog Unit := do
  reclaimRuns (← Program.step .outstanding)
  let _ ← Program.step .reclaimLedger
  return ()

/-- `Bastion::reclaim`. -/
def reclaim : Prog Unit := do
  Program.step .sweep
  match ← Program.step .enter with
  | false => return ()
  | true => reclaimRecords

/-- `Bastion::close_session`. -/
def closeSession (principal : PrincipalId) (id : SessionId) : Prog (Except Error Unit) := do
  match ← Program.step .enter with
  | false => return .error .busy
  | true =>
    match ← Program.step (.useSession id principal) with
    | .error error => return .error (.session error)
    | .ok session =>
      match ← Program.step (.recordSessionClosed session) with
      | .error error => return .error (.audit error)
      | .ok () =>
        match ← Program.step (.close id principal) with
        | .error error => return .error (.session error)
        | .ok () =>
          reclaim
          return .ok ()

/-- `Bastion::terminate_session`. -/
def terminateSession (id : SessionId) (operator : PrincipalId) : Prog (Except Error Unit) := do
  match ← Program.step .enter with
  | false => return .error .busy
  | true =>
    match ← Program.step (.terminate id operator) with
    | .error error => return .error error
    | .ok () =>
      reclaim
      return .ok ()

/-- The wait for running commands when the server stops. It reclaims and looks
until nothing is being read or its deadline passes, and says which. -/
def settled : Nat → Prog Bool
  | 0 => return false
  | looks + 1 => do
    reclaim
    match ← Program.step .unfinished with
    | [] => return true
    | _ :: _ => settled looks

/-! ## Calls -/

/-- What can be asked for. An outcome is what a run's caller is given; the
deadline of a stop lets it look so many times. -/
inductive Call
  | execute (receipt : Receipt)
  | poll (principal : PrincipalId) (session : SessionId) (run : RunId)
  | reclaim
  | closeSession (principal : PrincipalId) (id : SessionId)
  | terminateSession (id : SessionId) (operator : PrincipalId)
  | stop
  | settled (looks : Nat)

inductive Answer
  | outcome (result : Except Error Outcome)
  | ended (result : Except Error Unit)
  | reclaimed
  | stopped
  | settled (all : Bool)

def Call.program : Call → Prog Answer
  | .execute receipt => Answer.outcome <$> RunStore.execute receipt
  | .poll principal session run => Answer.outcome <$> RunStore.poll principal session run
  | .reclaim => (fun _ => Answer.reclaimed) <$> RunStore.reclaim
  | .closeSession principal id => Answer.ended <$> RunStore.closeSession principal id
  | .terminateSession id operator => Answer.ended <$> RunStore.terminateSession id operator
  | .stop => (fun _ => Answer.stopped) <$> Program.step .stop
  | .settled looks => Answer.settled <$> RunStore.settled looks

variable (deployment : Bastion.Deployment)

abbrev World : Type 1 := Interleaving.World Step Call Choice Answer Service

/-- A service nothing has been asked of. -/
def World.new (clock : Nat) : World := ⟨Service.new deployment clock, []⟩

/-- What any calls, in any order of their steps, can come to. -/
def Reaches (before after : World) : Prop :=
  Interleaving.Runs (semantics deployment) Call.program (fun _ _ => True) before after

/-- A world that a new service can come to. -/
def Reachable (world : World) : Prop :=
  ∃ clock, Reaches deployment (World.new deployment clock) world

end McpSsh.RunStore
