import McpSsh.Bastion.Calls

/-!
# Sessions of others

A call that names a session of another principal is answered what it would be
answered if nothing had that name, and changes nothing.
-/

namespace McpSsh.Bastion

open Interleaving

variable (deployment : Deployment)

/-! ## Calls that name a session -/

/-- `Bastion::check_session_account`: one look at the sessions, and the
registry. -/
def Service.checkSessionAccount (service : Service) (principal : PrincipalId) (id : SessionId)
    (host : HostId) (role : RoleId) (accessClass : AccessClass) : Except MediationError Unit :=
  match service.sessions.store.checkBinding id principal host role with
  | .error error => .error (.session error)
  | .ok () => (checkAccount deployment host role accessClass).map fun _ => ()

/-- What an agent asks for by a session. -/
inductive Call.Names (principal : PrincipalId) (id : SessionId) : Call → Prop
  | submit (agentIntent : CommandIntent) (work : Work) :
    Names principal id (.submit principal id agentIntent work)
  | closeSession : Names principal id (.closeSession principal id)

/-- The service without a session, and without what was another's through it. -/
def Service.without (service : Service) (id : SessionId) : Service :=
  { service with
    sessions := { service.sessions with store := service.sessions.store.remove id }
    approvals := { service.approvals with
      requests := service.approvals.requests.filter (·.asked.session ≠ id) }
    standing := service.standing.filter (·.session ≠ id)
    links := { service.links with
      connections := service.links.connections.filter (·.1 ≠ id) }
    runs := { service.runs with
      runs := service.runs.runs.filter (·.authorization.who.session ≠ id) } }

/-! ## Steps that change nothing -/

variable {deployment} {tid : Nat} {choice : Choice} {service : Service}

theorem Step.run_idle {β : Type} {step : Step β} {answer : β}
    (idle : step.effect deployment tid choice service = .plain answer service)
    (locks : service.permits tid step.use = true →
      service.locksAfter tid false step.use = service.locks) :
    step.run deployment tid choice service =
      if service.journal.unused choice.draw && service.permits tid step.use then
        some (answer, service)
      else none := by
  unfold Step.run
  split
  · rename_i can
    rw [idle]
    simp [Effect.plain, locks (Bool.and_eq_true_iff.mp can).2]
  · rfl

theorem useSession_unknown {store : Sessions} {now : Nat} {id : SessionId} {principal : PrincipalId}
    (foreign : ∀ session, store.find id = some session → session.principal ≠ principal) :
    store.useSession now id principal = (.error .unknown, store) := by
  unfold Sessions.useSession
  cases found : store.find id with
  | none => rfl
  | some session => exact if_pos (foreign session found)


/-- A service in which a principal has no session of a name, as another has none. -/
structure Alike (principal : PrincipalId) (id : SessionId) (one two : Service) : Prop where
  stopping : one.stopping = two.stopping
  locks : one.locks = two.locks
  journal : one.journal = two.journal
  foreign : ∀ session, one.sessions.store.find id = some session → session.principal ≠ principal
  foreign' : ∀ session, two.sessions.store.find id = some session → session.principal ≠ principal

variable {principal : PrincipalId} {id : SessionId} {one two : Service}

theorem Alike.permits (alike : Alike principal id one two) (tid : Nat) (use : Use) :
    one.permits tid use = two.permits tid use := by
  cases use <;> simp only [Service.permits, alike.locks]

theorem locksAfter_takes {which : Lock} (can : service.permits tid (.takes which) = true) :
    service.locksAfter tid false (.takes which) = service.locks := by
  have free : service.locks which = none := of_decide_eq_true can
  funext lock
  by_cases same : lock = which
  · rw [same, Service.locksAfter, if_neg Bool.false_ne_true, Function.update_self, free]
  · exact Function.update_of_ne same _ _

/-- A step that answers the same in both and changes neither. -/
theorem Alike.act (alike : Alike principal id one two) {β α : Type} {step : Step β} {answer : β}
    {next : β → Prog α} {tid : Nat} {choices : Nat → Choice} {after : Service → Service}
    (idle : step.effect deployment tid (choices 0) one = .plain answer one)
    (idle' : step.effect deployment tid (choices 0) two = .plain answer two)
    (brief : step.use = .without ∨ ∃ which, step.use = .takes which)
    (rest : (next answer).Agrees (semantics deployment) tid (choices <| · + 1) one after two) :
    (Program.act step next).Agrees (semantics deployment) tid choices one after two := by
  have locks (service : Service) (can : service.permits tid step.use = true) :
      service.locksAfter tid false step.use = service.locks := by
    rcases brief with without | ⟨which, takes⟩
    · rw [without]
      rfl
    · rw [takes] at can ⊢
      exact locksAfter_takes can
  refine .act (Step.run_idle idle (locks one)) ?_ fun _ => rest
  rw [alike.journal, alike.permits]
  exact Step.run_idle idle' (locks two)

theorem useSession_idle {tid : Nat} {choice : Choice}
    (foreign : ∀ session, service.sessions.store.find id = some session →
      session.principal ≠ principal) :
    (Step.sessions (.useSession id principal)).effect deployment tid choice service =
      .plain (.error .unknown) service := by
  simp only [Step.effect, SessionStep.effect, useSession_unknown foreign, Effect.plain]

/-- The first steps of everything that runs by a session. -/
theorem submit_agrees (alike : Alike principal id one two) (tid : Nat) (choices : Nat → Choice)
    (agentIntent : CommandIntent) (work : Work) :
    (Call.program deployment (.submit principal id agentIntent work)).Agrees
      (semantics deployment) tid choices one (fun _ => one) two := by
  simp only [Call.program, submit, authorizeAction, Prog.service, Prog.sessions,
    Program.step_bind, Program.act_bind]
  apply alike.act rfl rfl (.inl rfl)
  cases (choices 0).accepts with
  | false => exact .done rfl
  | true =>
    have stopping : (Step.service .stopping).effect deployment tid (choices 1) one =
        .plain two.stopping one := by
      rw [← alike.stopping]
      rfl
    apply alike.act stopping rfl (.inl rfl)
    cases two.stopping with
    | true => exact .done rfl
    | false =>
      apply alike.act (useSession_idle alike.foreign) (useSession_idle alike.foreign')
        (.inr ⟨_, rfl⟩)
      exact .done rfl

/-- The service while a call holds a lock. -/
def Service.locked (service : Service) (which : Lock) (tid : Nat) : Service :=
  { service with locks := Function.update service.locks which (some tid) }

theorem run_lock (which : Lock) :
    (Step.service (.lock which)).run deployment tid choice service =
      if service.journal.unused choice.draw && service.permits tid (.takes which) then
        some ((), service.locked which tid)
      else none := by
  simp [Step.run, Step.use, ServiceStep.use, Step.effect, ServiceStep.effect, Service.locksAfter,
    Service.locked]

theorem run_unlock {which : Lock} (free : service.locks which = none) :
    (Step.service (.unlock which)).run deployment tid choice (service.locked which tid) =
      if service.journal.unused choice.draw then some ((), service) else none := by
  have restored : Function.update service.locks which none = service.locks := by
    rw [← free, Function.update_eq_self]
  simp [Step.run, Step.use, ServiceStep.use, Step.effect, ServiceStep.effect, Effect.plain,
    Service.permits, Service.locksAfter, Service.locked, restored]

theorem Alike.locked (alike : Alike principal id one two) (which : Lock) (tid : Nat) :
    Alike principal id (one.locked which tid) (two.locked which tid) where
  stopping := alike.stopping
  locks := by rw [Service.locked, Service.locked, alike.locks]
  journal := alike.journal
  foreign := alike.foreign
  foreign' := alike.foreign'

theorem closeSession_agrees (alike : Alike principal id one two) (tid : Nat)
    (choices : Nat → Choice) :
    (Call.program deployment (.closeSession principal id)).Agrees
      (semantics deployment) tid choices one (fun _ => one) two := by
  simp only [Call.program, closeSession, Prog.service, Prog.sessions,
    Program.step_bind, Program.act_bind]
  apply alike.act rfl rfl (.inl rfl)
  cases (choices 0).accepts with
  | false => exact .done rfl
  | true =>
    have locks : (Step.service (.lock .publishing)).run deployment tid (choices 1) two =
        if one.journal.unused (choices 1).draw && one.permits tid (.takes .publishing) then
          some ((), two.locked .publishing tid)
        else none := by
      rw [alike.journal, alike.permits]
      exact run_lock .publishing
    refine .act (run_lock .publishing) locks fun can => ?_
    have free : one.locks .publishing = none :=
      of_decide_eq_true (Bool.and_eq_true_iff.mp can).2
    apply (alike.locked .publishing tid).act (useSession_idle alike.foreign)
      (useSession_idle alike.foreign') (.inr ⟨_, rfl⟩)
    have unlocks : (Step.service (.unlock .publishing)).run deployment tid (choices 3)
        (two.locked .publishing tid) =
          if one.journal.unused (choices 3).draw then some ((), two) else none := by
      rw [alike.journal]
      exact run_unlock (alike.locks ▸ free)
    exact .act (run_unlock free) unlocks fun _ => .done rfl

/-- A session is gone from a service without it. -/
theorem Service.without_find (service : Service) (id : SessionId) :
    (service.without id).sessions.store.find id = none := by
  apply List.find?_eq_none.mpr
  intro session member same
  exact of_decide_eq_true (List.mem_filter.mp member).2 (of_decide_eq_true same)

theorem Alike.without (foreign : ∀ session, service.sessions.store.find id = some session →
      session.principal ≠ principal) : Alike principal id service (service.without id) where
  stopping := rfl
  locks := rfl
  journal := rfl
  foreign := foreign
  foreign' _ found := nomatch (service.without_find id).symm.trans found

/-- A call by a session of another principal is answered, step for step, as if
there were none, and leaves the service as it was. -/
theorem Call.Names.agrees {call : Call} (names : call.Names principal id)
    (alike : Alike principal id one two) (tid : Nat) (choices : Nat → Choice) :
    (call.program deployment).Agrees (semantics deployment) tid choices one (fun _ => one) two := by
  cases names with
  | submit agentIntent work => exact submit_agrees alike tid choices agentIntent work
  | closeSession => exact closeSession_agrees alike tid choices

theorem checkSessionAccount_inert {host : HostId} {role : RoleId} {accessClass : AccessClass}
    (foreign : ∀ session, service.sessions.store.find id = some session →
      session.principal ≠ principal) :
    service.checkSessionAccount deployment principal id host role accessClass =
      (service.without id).checkSessionAccount deployment principal id host role accessClass := by
  unfold Service.checkSessionAccount Sessions.checkBinding
  rw [service.without_find id]
  cases found : service.sessions.store.find id with
  | none => rfl
  | some session => simp only [foreign session found, ne_eq, not_false_eq_true, true_or, if_true]

end McpSsh.Bastion
