import McpSsh.Bastion.Foreign
import McpSsh.Bastion.Worlds
import McpSsh.Runs.Control
import McpSsh.SessionStore

/-!
# What belongs to others

A session of another principal, or a run of another session, is to a call as if
it were not there: it answers the same, in the same steps, and does to every
store what it would do without.
-/

namespace McpSsh

open Interleaving

namespace RunStore

variable (deployment : Bastion.Deployment)

/-- The store without a session and its runs. -/
def Service.withoutSession (service : Service) (id : SessionId) : Service :=
  let gone := (service.lives.filter (·.authorization.who.session = id)).map (·.id)
  { service with
    sessions := service.sessions.remove id
    lives := service.lives.filter (·.authorization.who.session ≠ id)
    held := service.held.filter (· ∉ gone)
    reading := service.reading.filter (· ∉ gone) }

/-- The store without a run. -/
def Service.withoutRun (service : Service) (run : RunId) : Service :=
  { service with
    lives := service.lives.filter (·.id ≠ run)
    held := service.held.filter (· ≠ run)
    reading := service.reading.filter (· ≠ run) }

variable {deployment} {principal : PrincipalId} {id : SessionId} {run : RunId}
  {one two : Service}

/-- No run of a name is this session's. -/
def Service.Foreign (service : Service) (id : SessionId) (run : RunId) : Prop :=
  ∀ live, service.find run = some live → live.authorization.who.session ≠ id

/-- Two stores with the same sessions, in neither of which a session has a run. -/
structure Alike (id : SessionId) (run : RunId) (one two : Service) : Prop where
  clock : one.clock = two.clock
  sessions : one.sessions = two.sessions
  admitting : one.admitting = two.admitting
  foreign : one.Foreign id run
  foreign' : two.Foreign id run

theorem Alike.unlocked (alike : Alike id run one two) : one.unlocked = two.unlocked := by
  rw [Service.unlocked, alike.admitting, Service.unlocked]

theorem belongsTo_foreign (deployment : Bastion.Deployment) (tid : Nat) (choice : Choice)
    {service : Service} (foreign : service.Foreign id run) :
    (semantics deployment).run tid choice (.belongsTo run id) service =
      if service.unlocked then some (false, service) else none := by
  have other : (service.find run).any (·.authorization.who.session = id) = false := by
    cases found : service.find run with
    | none => rfl
    | some live => exact decide_eq_false (foreign live found)
  simp only [semantics, Step.run, other, Bool.and_false]

/-- A session of another is not found, and the store stays. -/
theorem useSession_foreign (deployment : Bastion.Deployment) (tid : Nat) (choice : Choice)
    {service : Service} (foreign : ∀ session, service.sessions.find id = some session →
      session.principal ≠ principal) :
    (semantics deployment).run tid choice (.useSession id principal) service =
      some (.error .unknown, service) := by
  simp only [semantics, Step.run, Bastion.useSession_unknown foreign]

theorem Alike.useSession (alike : Alike id run one two) (deployment : Bastion.Deployment)
    (tid : Nat) (choice : Choice) (principal : PrincipalId) {answer : Except SessionError Session}
    {sessions : Sessions}
    (ran : one.sessions.useSession one.clock id principal = (answer, sessions)) :
    (semantics deployment).run tid choice (.useSession id principal) one =
        some (answer, { one with sessions }) ∧
      (semantics deployment).run tid choice (.useSession id principal) two =
        some (answer, { two with sessions }) := by
  have ran' : two.sessions.useSession two.clock id principal = (answer, sessions) := by
    rw [← alike.sessions, ← alike.clock, ran]
  simp only [semantics, Step.run, ran, ran', and_self]

theorem poll_foreign_session (tid : Nat) (choices : Nat → Choice)
    (foreign : ∀ session, one.sessions.find id = some session → session.principal ≠ principal)
    (foreign' : ∀ session, two.sessions.find id = some session → session.principal ≠ principal) :
    (poll principal id run).Agrees (semantics deployment) tid choices one (fun _ => one) two := by
  simp only [poll, Program.step_bind]
  refine .now rfl rfl ?_
  cases (choices 0).accepts with
  | false => exact .done rfl
  | true =>
    exact .now (useSession_foreign deployment tid _ foreign)
      (useSession_foreign deployment tid _ foreign') (.done rfl)

/-- The store with its sessions as a call left them. -/
def Service.used (service : Service) (left : Service) : Service :=
  { service with sessions := left.sessions }

theorem poll_foreign_run (alike : Alike id run one two) (tid : Nat) (choices : Nat → Choice) :
    (poll principal id run).Agrees (semantics deployment) tid choices one one.used two := by
  simp only [poll, Program.step_bind]
  refine .now rfl rfl ?_
  cases (choices 0).accepts with
  | false => exact .done (by rw [Service.used, ← alike.sessions])
  | true =>
    cases ran : one.sessions.useSession one.clock id principal with
    | mk answer sessions =>
      obtain ⟨first, second⟩ := alike.useSession deployment tid (choices 1) principal ran
      refine .now first second ?_
      cases answer with
      | error error => exact .done rfl
      | ok session =>
        obtain ⟨before, -, rfl, -, -, same, -⟩ := Sessions.useSession_ok ran
        have named : session.id = before.id := by rw [same]
        simp only [named]
        have third : (semantics deployment).run tid (choices 2) (.belongsTo run before.id)
            { two with sessions } =
              if one.unlocked then some (false, { two with sessions }) else none := by
          rw [alike.unlocked]
          exact belongsTo_foreign deployment tid _ alike.foreign'
        exact .act (belongsTo_foreign deployment tid _ alike.foreign) third fun _ => .done rfl

end RunStore

namespace RunControl

variable {deployment : Bastion.Deployment} {principal : PrincipalId} {id : SessionId}
  {run : RunId} {one two : Service} {α : Type}

/-- A step of the run store, with its runs' counters beside it. -/
theorem run_runs (deployment : Bastion.Deployment) (tid : Nat) (choice : RunStore.Choice) {β : Type}
    (step : RunStore.Step β) (service : Service) :
    (semantics deployment).run tid choice (.runs step) service =
      ((RunStore.semantics deployment).run tid choice step service.runs).map fun (answer, runs) =>
        (answer, { service with runs }) := rfl

/-- What begins with a look at a run of another's session ends there. -/
theorem progress_foreign_session {next : Except RunStore.Error Progress → Prog α}
    (fails : ∀ error, ∃ value, next (.error error) = .done value) (tid : Nat)
    (choices : Nat → RunStore.Choice)
    (foreign : ∀ session, one.runs.sessions.find id = some session → session.principal ≠ principal)
    (foreign' : ∀ session, two.runs.sessions.find id = some session →
      session.principal ≠ principal) :
    (progress principal id run >>= next).Agrees (semantics deployment) tid choices one
      (fun _ => one) two := by
  obtain ⟨value, ends⟩ := fails (.session .unknown)
  simp only [progress, Program.step_bind, Program.act_bind]
  have used {service : Service} (foreign : ∀ session, service.runs.sessions.find id = some session →
      session.principal ≠ principal) :
      (semantics deployment).run tid (choices 0) (.runs (.useSession id principal)) service =
        some (.error .unknown, service) := by
    rw [run_runs, RunStore.useSession_foreign deployment tid _ foreign]
    rfl
  refine .now (used foreign) (used foreign') ?_
  simp only [Program.pure_eq, Program.done_bind, ends]
  exact .done rfl

/-- The service with its sessions as a call left them. -/
def Service.used (service : Service) (left : Service) : Service :=
  { service with runs := service.runs.used left.runs }

theorem progress_foreign_run {next : Except RunStore.Error Progress → Prog α}
    (fails : ∀ error, ∃ value, next (.error error) = .done value)
    (alike : RunStore.Alike id run one.runs two.runs) (tid : Nat)
    (choices : Nat → RunStore.Choice) :
    (progress principal id run >>= next).Agrees (semantics deployment) tid choices one
      one.used two := by
  simp only [progress, Program.step_bind, Program.act_bind]
  cases ran : one.runs.sessions.useSession one.runs.clock id principal with
  | mk answer sessions =>
    obtain ⟨first, second⟩ := alike.useSession deployment tid (choices 0) principal ran
    have first' : (semantics deployment).run tid (choices 0) (.runs (.useSession id principal)) one =
        some (answer, { one with runs := { one.runs with sessions } }) := by
      rw [run_runs, first]
      rfl
    have second' : (semantics deployment).run tid (choices 0) (.runs (.useSession id principal)) two =
        some (answer, { two with runs := { two.runs with sessions } }) := by
      rw [run_runs, second]
      rfl
    refine .now first' second' ?_
    cases answer with
    | error error =>
      obtain ⟨value, ends⟩ := fails (.session error)
      simp only [Program.pure_eq, Program.done_bind, ends]
      exact .done rfl
    | ok session =>
      obtain ⟨before, -, rfl, -, -, same, -⟩ := Sessions.useSession_ok ran
      have named : session.id = before.id := by rw [same]
      simp only [named, Program.act_bind]
      have looked {service : Service} (foreign : service.runs.Foreign before.id run) :
          (semantics deployment).run tid (choices 1) (.runs (.belongsTo run before.id)) service =
            if service.runs.unlocked then some (false, service) else none := by
        rw [run_runs, RunStore.belongsTo_foreign deployment tid _ foreign]
        split <;> rfl
      have third : (semantics deployment).run tid (choices 1) (.runs (.belongsTo run before.id))
          { two with runs := { two.runs with sessions } } =
            if one.runs.unlocked then some (false, { two with runs := { two.runs with sessions } })
            else none := by
        rw [alike.unlocked]
        exact looked alike.foreign'
      obtain ⟨value, ends⟩ := fails (.unknown run)
      refine .act (looked alike.foreign) third fun _ => ?_
      simp only [Program.pure_eq, Program.done_bind, ends]
      exact .done rfl

/-- What an owner asks of a run, besides waiting for it. -/
inductive Call
  | progress (principal : PrincipalId) (session : SessionId) (run : RunId)
  | cancel (principal : PrincipalId) (session : SessionId) (run : RunId)

def Call.program : Call → Prog (Except RunStore.Error Progress)
  | .progress principal session run => RunControl.progress principal session run
  | .cancel principal session run => RunControl.cancel principal session run

/-- Who asks, by which session, about which run. -/
def Call.asks : Call → PrincipalId × SessionId × RunId
  | .progress principal session run | .cancel principal session run => (principal, session, run)

theorem Call.foreign_session {call : Call} (asks : call.asks = (principal, id, run)) (tid : Nat)
    (choices : Nat → RunStore.Choice)
    (foreign : ∀ session, one.runs.sessions.find id = some session → session.principal ≠ principal)
    (foreign' : ∀ session, two.runs.sessions.find id = some session →
      session.principal ≠ principal) :
    call.program.Agrees (semantics deployment) tid choices one (fun _ => one) two := by
  cases call with
  | progress =>
    cases asks
    rw [program, ← Program.bind_done (RunControl.progress principal id run)]
    exact progress_foreign_session (fun error => ⟨.error error, rfl⟩) tid choices foreign foreign'
  | cancel =>
    cases asks
    exact progress_foreign_session (fun error => ⟨.error error, rfl⟩) tid choices foreign foreign'

theorem Call.foreign_run {call : Call} (asks : call.asks = (principal, id, run)) (tid : Nat)
    (choices : Nat → RunStore.Choice) (alike : RunStore.Alike id run one.runs two.runs) :
    call.program.Agrees (semantics deployment) tid choices one one.used two := by
  cases call with
  | progress =>
    cases asks
    rw [program, ← Program.bind_done (RunControl.progress principal id run)]
    exact progress_foreign_run (fun error => ⟨.error error, rfl⟩) alike tid choices
  | cancel =>
    cases asks
    exact progress_foreign_run (fun error => ⟨.error error, rfl⟩) alike tid choices

end RunControl

/-! ## Without what belongs to others -/

namespace RunStore

variable {service : Service} {id : SessionId} {run : RunId}

theorem Service.withoutSession_find (service : Service) (id : SessionId) :
    (service.withoutSession id).sessions.find id = none := by
  apply List.find?_eq_none.mpr
  intro session member same
  exact of_decide_eq_true (List.mem_filter.mp member).2 (of_decide_eq_true same)

theorem Service.withoutRun_find (service : Service) (run : RunId) :
    (service.withoutRun run).find run = none := by
  apply List.find?_eq_none.mpr
  intro live member same
  exact of_decide_eq_true (List.mem_filter.mp member).2 (of_decide_eq_true same)

theorem Service.withoutRun_alike (foreign : service.Foreign id run) :
    Alike id run service (service.withoutRun run) where
  clock := rfl
  sessions := rfl
  admitting := rfl
  foreign := foreign
  foreign' _ found := nomatch (service.withoutRun_find run).symm.trans found

end RunStore

namespace RunControl

/-- The service without a session and its runs. -/
def Service.withoutSession (service : Service) (id : SessionId) : Service :=
  { service with runs := service.runs.withoutSession id }

/-- The service without a run. -/
def Service.withoutRun (service : Service) (run : RunId) : Service :=
  { service with runs := service.runs.withoutRun run }

end RunControl

/-- What belongs to others is inert. A call by a session of another principal is
answered as if there were no such session, in the same steps, and leaves every
store as it was; a call about a run of another session is answered as if there
were no such run, in the same steps, and changes nothing but what it would change
of the sessions then. -/
theorem foreign_inert (deployment : Bastion.Deployment) (tid : Nat) :
    (∀ (service : Bastion.Service) (principal : PrincipalId) (id : SessionId),
      (∀ session, service.sessions.store.find id = some session →
        session.principal ≠ principal) →
      (∀ call, Bastion.Call.Names principal id call → ∀ choices,
        (call.program deployment).Agrees (Bastion.semantics deployment) tid choices service
            (fun _ => service) (service.without id) ∧
          (call.program deployment).Agrees (Bastion.semantics deployment) tid choices
            (service.without id) (fun _ => service.without id) (service.without id)) ∧
      ∀ host role accessClass,
        service.checkSessionAccount deployment principal id host role accessClass =
          (service.without id).checkSessionAccount deployment principal id host role
            accessClass) ∧
    (∀ (service : RunControl.Service) (principal : PrincipalId) (id : SessionId) (run : RunId),
      (∀ session, service.runs.sessions.find id = some session →
        session.principal ≠ principal) → ∀ choices,
      ((RunStore.poll principal id run).Agrees (RunStore.semantics deployment) tid choices
          service.runs (fun _ => service.runs) (service.runs.withoutSession id) ∧
        (RunStore.poll principal id run).Agrees (RunStore.semantics deployment) tid choices
          (service.runs.withoutSession id) (fun _ => service.runs.withoutSession id)
          (service.runs.withoutSession id)) ∧
      ∀ call : RunControl.Call, call.asks = (principal, id, run) →
        call.program.Agrees (RunControl.semantics deployment) tid choices service
            (fun _ => service) (service.withoutSession id) ∧
          call.program.Agrees (RunControl.semantics deployment) tid choices
            (service.withoutSession id) (fun _ => service.withoutSession id)
            (service.withoutSession id)) ∧
    ∀ (service : RunControl.Service) (principal : PrincipalId) (id : SessionId) (run : RunId),
      service.runs.Foreign id run → ∀ choices,
      ((RunStore.poll principal id run).Agrees (RunStore.semantics deployment) tid choices
          service.runs service.runs.used (service.runs.withoutRun run) ∧
        (RunStore.poll principal id run).Agrees (RunStore.semantics deployment) tid choices
          (service.runs.withoutRun run) (service.runs.withoutRun run).used
          (service.runs.withoutRun run)) ∧
      ∀ call : RunControl.Call, call.asks = (principal, id, run) →
        call.program.Agrees (RunControl.semantics deployment) tid choices service
            service.used (service.withoutRun run) ∧
          call.program.Agrees (RunControl.semantics deployment) tid choices
            (service.withoutRun run) (service.withoutRun run).used (service.withoutRun run) := by
  refine ⟨?_, ?_, ?_⟩
  · intro service principal id foreign
    have alike := Bastion.Alike.without foreign
    refine ⟨fun call names choices => ⟨names.agrees alike tid choices, ?_⟩, ?_⟩
    · exact names.agrees ⟨rfl, rfl, rfl, alike.foreign', alike.foreign'⟩ tid choices
    · exact fun host role accessClass => Bastion.checkSessionAccount_inert foreign
  · intro service principal id run foreign choices
    have missing (session : Session)
        (found : (service.runs.withoutSession id).sessions.find id = some session) :
        session.principal ≠ principal :=
      nomatch (service.runs.withoutSession_find id).symm.trans found
    refine ⟨⟨RunStore.poll_foreign_session tid choices foreign missing,
      RunStore.poll_foreign_session tid choices missing missing⟩, fun call asks => ⟨?_, ?_⟩⟩
    · exact call.foreign_session asks tid choices foreign missing
    · exact call.foreign_session asks tid choices missing missing
  · intro service principal id run foreign choices
    have alike := RunStore.Service.withoutRun_alike foreign
    have alone : RunStore.Alike id run (service.runs.withoutRun run)
        (service.runs.withoutRun run) := ⟨rfl, rfl, rfl, alike.foreign', alike.foreign'⟩
    refine ⟨⟨RunStore.poll_foreign_run alike tid choices,
      RunStore.poll_foreign_run alone tid choices⟩, fun call asks => ⟨?_, ?_⟩⟩
    · exact call.foreign_run asks tid choices alike
    · exact call.foreign_run asks tid choices alone

namespace Foreign.Sample

open Bastion.Sample (alice web root purpose reviewed opening)

def bob : PrincipalId := ⟨"bob", by decide⟩

/-- Alice's session, open under the number 5. -/
def opened : Bastion.Service := (Bastion.Sample.run opening).shared

theorem opened_live : ∃ session, opened.sessions.store.find ⟨5⟩ = some session ∧
    session.principal = alice ∧ session.expiry opened.clock = none := by
  have one : (opened.sessions.store.find ⟨5⟩).any (fun session =>
      session.principal = alice && (session.expiry opened.clock).isNone) = true := by
    decide +kernel
  obtain ⟨session, found, is⟩ := (Option.any_eq_true _ _).mp one
  obtain ⟨owner, live⟩ := Bool.and_eq_true_iff.mp is
  exact ⟨session, found, of_decide_eq_true owner, Option.isNone_iff_eq_none.mp live⟩

def session (principal : PrincipalId) (draw : Nat) : Session where
  id := ⟨draw⟩
  principal
  host := web
  role := root
  purpose
  accessClass := .privileged
  openedAt := 0
  lastUsed := 0
  lifetime := reviewed.lifetime

/-- Alice has a session under 1 and Bob under 2, and a run of Alice's goes on. -/
def running : RunControl.Service where
  runs := { RunStore.Service.new reviewed 1 with
    sessions := ⟨[session alice 1, session bob 2], []⟩
    lives := [.new ⟨7⟩ { (default : Authorization) with
      who := (session alice 1).attribution }]
    held := [⟨7⟩]
    reading := [⟨7⟩] }
  counters := fun _ => ⟨0, 0, .notRequested, false⟩

/-- Bob can close neither session of Alice's, and learns nothing of her run:
neither by her session's name nor by that of his own. -/
theorem foreign_inert_bob :
    (∀ choices, ((Bastion.Call.closeSession bob ⟨5⟩).program reviewed).Agrees
      (Bastion.semantics reviewed) 1 choices opened (fun _ => opened) (opened.without ⟨5⟩)) ∧
    (∀ choices, (RunStore.poll bob ⟨1⟩ ⟨7⟩).Agrees (RunStore.semantics reviewed) 1 choices
      running.runs (fun _ => running.runs) (running.runs.withoutSession ⟨1⟩)) ∧
    ∀ choices, (RunControl.cancel bob ⟨2⟩ ⟨7⟩).Agrees (RunControl.semantics reviewed) 1 choices
      running running.used (running.withoutRun ⟨7⟩) := by
  obtain ⟨sessions, runs, run⟩ := foreign_inert reviewed 1
  refine ⟨fun choices => ?_, fun choices => ?_, fun choices => ?_⟩
  · have foreign (session : Session) (found : opened.sessions.store.find ⟨5⟩ = some session) :
        session.principal ≠ bob := by
      obtain ⟨live, found', owner, -⟩ := opened_live
      obtain rfl := Option.some.inj (found.symm.trans found')
      rw [owner]
      decide
    exact ((sessions opened bob ⟨5⟩ foreign).1 _ .closeSession choices).1
  · have foreign (session : Session) (found : running.runs.sessions.find ⟨1⟩ = some session) :
        session.principal ≠ bob := by
      cases found
      decide
    exact (runs running bob ⟨1⟩ ⟨7⟩ foreign choices).1.1
  · have foreign : running.runs.Foreign ⟨2⟩ ⟨7⟩ := by
      intro live found
      cases found
      decide
    exact ((run running bob ⟨2⟩ ⟨7⟩ foreign choices).2 (.cancel bob ⟨2⟩ ⟨7⟩) rfl).1

end Foreign.Sample

end McpSsh
