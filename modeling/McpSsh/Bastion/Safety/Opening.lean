import McpSsh.Bastion.Safety.Sweeping

/-!
# Opening a session

What an opening leaves is read off its own steps: the slot it reserved, the
session it published and the connection it placed, each as a net count over the
steps, so that what others do meanwhile does not enter.
-/

namespace McpSsh.Bastion

open Interleaving

variable {deployment : Deployment} {tid : Nat} {choice : Choice} {service after : Service}
variable {past : List Took} {principal : PrincipalId} {α β : Type} {answer : β}

/-! ## What is counted -/

/-- Sessions held under an identifier. -/
def sessionsUnder (id : SessionId) (service : Service) : Int :=
  (service.sessions.store.held.map (·.id)).count id

/-- Slots a principal has reserved. -/
def pendingOf (principal : PrincipalId) (service : Service) : Int :=
  service.sessions.store.pending.count principal

/-- Entries of the connection map under an identifier. -/
def linksUnder (id : SessionId) (service : Service) : Int :=
  (service.links.connections.map (·.1)).count id

/-- A call added no session, kept no slot and left no connection in the map. -/
structure LeavesNothing (principal : PrincipalId) (past : List Took) : Prop where
  sessions : ∀ id, net (sessionsUnder id) past ≤ 0
  pending : net (pendingOf principal) past = 0
  links : ∀ id, net (linksUnder id) past ≤ 0

/-- A record a call wants has room and is accepted. -/
def LedgerStep.Heard (deployment : Deployment) (choice : Choice) (service : Service) {β : Type} :
    LedgerStep β → Prop
  | .record who event => choice.accepts = true ∧
    service.ledger.hasRoom deployment.format deployment.limits (service.alive choice.extra)
      service.clock who event = true
  | _ => True

def Step.Heard (deployment : Deployment) (choice : Choice) (service : Service) {β : Type} :
    Step β → Prop
  | .ledger step => step.Heard deployment choice service
  | _ => True

/-- A record a call wanted had room and was accepted. -/
def Heard (deployment : Deployment) (took : Took) : Prop :=
  took.step.Heard deployment took.choice took.before

/-- What a call has done so far, with so many slots reserved. It has not touched
a session whose number nobody has drawn. -/
structure Tally (deployment : Deployment) (principal : PrincipalId) (slots : Int)
    (past : List Took) (service : Service) : Prop where
  sessions : ∀ id, net (sessionsUnder id) past ≤ 0
  pending : net (pendingOf principal) past = slots
  links : ∀ id, net (linksUnder id) past ≤ 0
  heard : ∀ took ∈ past, Heard deployment took
  fresh : ∀ draw, service.journal.unused draw = true → net (sessionsUnder ⟨draw⟩) past = 0

/-- No session is held under a number nobody has drawn. -/
theorem Inv.sessionsUnder_unused (inv : Inv deployment service) {draw : Nat}
    (unused : service.journal.unused draw = true) : sessionsUnder ⟨draw⟩ service = 0 := by
  unfold sessionsUnder
  rw [Int.natCast_eq_zero, List.count_eq_zero]
  intro member
  obtain ⟨session, held, same⟩ := List.mem_map.mp member
  exact inv.sessions.fresh unused session held same

theorem Journal.unused_of_prefix {journal later : Journal} (grows : journal <+: later) {draw : Nat}
    (unused : later.unused draw = true) : journal.unused draw = true :=
  List.all_eq_true.mpr fun note member => List.all_eq_true.mp unused note (grows.subset member)

namespace Tally

theorem nil (deployment : Deployment) (principal : PrincipalId) (service : Service) :
    Tally deployment principal 0 [] service :=
  ⟨fun _ => le_refl _, rfl, fun _ => le_refl _, (fun _ member => by cases member), fun _ _ => rfl⟩

variable {slots : Int} {held : List Lock} {step : Step β} {before : Service}

theorem append (tally : Tally deployment principal slots past service)
    (passed : Passed deployment tid held step choice service before answer after)
    (sessions : ∀ id, sessionsUnder id after ≤ sessionsUnder id before) {change : Int}
    (pending : pendingOf principal after = pendingOf principal before + change)
    (links : ∀ id, linksUnder id after ≤ linksUnder id before)
    (heard : step.Heard deployment choice before) :
    Tally deployment principal (slots + change) (past ++ [⟨step, choice, answer, before, after⟩])
      after where
  sessions id := by
    have earlier := tally.sessions id
    have here := sessions id
    rw [net_concat]
    dsimp only
    omega
  pending := by
    rw [net_concat, tally.pending]
    dsimp only
    omega
  links id := by
    have earlier := tally.links id
    have here := links id
    rw [net_concat]
    dsimp only
    omega
  heard := by
    intro other member
    rcases List.mem_append.mp member with old | new
    · exact tally.heard other old
    · rw [List.mem_singleton.mp new]
      exact heard
  fresh draw unused := by
    have unused' := Journal.unused_of_prefix (Step.since passed.inv passed.ran).journal unused
    have earlier := tally.fresh draw (Journal.unused_of_prefix passed.moved.journal unused')
    rw [net_concat, earlier]
    simp only [passed.kept.sessionsUnder_unused unused, passed.inv.sessionsUnder_unused unused']
    rfl

/-- A step that leaves the sessions and the map alone. -/
theorem idle (tally : Tally deployment principal slots past service)
    (passed : Passed deployment tid held step choice service before answer after)
    (sessions : after.sessions = before.sessions)
    (links : after.links.connections = before.links.connections)
    (heard : step.Heard deployment choice before) :
    Tally deployment principal slots (past ++ [⟨step, choice, answer, before, after⟩]) after := by
  have none' : Tally deployment principal (slots + 0) _ after :=
    tally.append passed (fun id => by simp [sessionsUnder, sessions])
      (by simp [pendingOf, sessions]) (fun id => by simp [linksUnder, links]) heard
  simpa using none'

theorem leavesNothing (tally : Tally deployment principal 0 past service) :
    LeavesNothing principal past :=
  ⟨tally.sessions, tally.pending, tally.links⟩

end Tally

/-! ## The steps of an opening -/

/-- Only a session step moves the sessions. -/
theorem Step.sessions_eq {step : Step β} (other : ∀ step' : SessionStep β, step ≠ .sessions step')
    (ran : step.run deployment tid choice service = some (answer, after)) :
    after.sessions = service.sessions := by
  obtain ⟨-, -, -, rfl⟩ := Step.ran ran
  cases step with
  | service step => cases step <;> rfl
  | sessions step => exact absurd rfl (other step)
  | _ => rfl

/-- Only a link step moves the connection map. -/
theorem Step.links_eq {step : Step β} (other : ∀ step' : LinkStep β, step ≠ .links step')
    (ran : step.run deployment tid choice service = some (answer, after)) :
    after.links = service.links := by
  obtain ⟨-, -, -, rfl⟩ := Step.ran ran
  cases step with
  | service step => cases step <;> rfl
  | links step => exact absurd rfl (other step)
  | _ => rfl

namespace Tally
variable {slots : Int} {held : List Lock} {before : Service}

theorem ofService (tally : Tally deployment principal slots past service) {step : ServiceStep β}
    (passed : Passed deployment tid held (.service step) choice service before answer after) :
    Tally deployment principal slots (past ++ [⟨.service step, choice, answer, before, after⟩])
      after :=
  tally.idle passed (Step.sessions_eq (by simp) passed.ran)
    (congrArg LinkPart.connections (Step.links_eq (by simp) passed.ran)) trivial

theorem dial (tally : Tally deployment principal slots past service) {target : Target}
    {answer : Option Connection}
    (passed : Passed deployment tid held (.links (.dial target)) choice service before answer after) :
    Tally deployment principal slots
      (past ++ [⟨.links (.dial target), choice, answer, before, after⟩]) after := by
  refine tally.idle passed (Step.sessions_eq (by simp) passed.ran) ?_ trivial
  obtain ⟨-, -, -, rfl⟩ := Step.ran passed.ran
  simp only [Step.effect, LinkStep.effect]
  split <;> rfl

theorem hangUp (tally : Tally deployment principal slots past service) {connection : Nat}
    {answer : Unit}
    (passed : Passed deployment tid held (.links (.hangUp connection)) choice service before answer
      after) :
    Tally deployment principal slots
      (past ++ [⟨.links (.hangUp connection), choice, answer, before, after⟩]) after := by
  refine tally.idle passed (Step.sessions_eq (by simp) passed.ran) ?_ trivial
  obtain ⟨-, -, -, rfl⟩ := Step.ran passed.ran
  rfl

/-- A reservation adds no session, and a slot if it is given. -/
theorem reserve (tally : Tally deployment principal slots past service)
    {result : Except TooManySessions Unit}
    (passed : Passed deployment tid held (.sessions (.reserve principal)) choice service before
      result after) :
    Tally deployment principal (slots + match result with | .ok () => 1 | .error _ => 0)
      (past ++ [⟨.sessions (.reserve principal), choice, result, before, after⟩]) after := by
  obtain ⟨-, -, is, rfl⟩ := Step.ran passed.ran
  rcases reserved : before.sessions.store.reserve deployment.sessionsPerPrincipal before.clock
    principal with ⟨given, store⟩
  obtain ⟨sub, pending⟩ := Sessions.reserve_eq reserved
  refine tally.append passed (fun id => ?_) ?_ (fun id => le_refl _) trivial
  · have fewer := (sub.map (·.id)).count_le id
    cases given <;>
    · simp only [sessionsUnder, Step.effect, SessionStep.effect, reserved, Effect.plain]
      exact_mod_cast fewer
  · cases given <;>
    · simp only [Step.effect, SessionStep.effect, reserved, Effect.plain] at is
      subst is
      simp [pendingOf, Step.effect, SessionStep.effect, reserved, Effect.plain, pending]

/-- A slot given back. -/
theorem release (tally : Tally deployment principal slots past service)
    {answer : Unit}
    (passed : Passed deployment tid held (.sessions (.release principal)) choice service before
      answer after) (mine : (tid, principal) ∈ before.sessions.openings) :
    Tally deployment principal (slots - 1)
      (past ++ [⟨.sessions (.release principal), choice, answer, before, after⟩]) after := by
  have counted : 0 < before.sessions.store.pending.count principal := by
    rw [List.count_pos_iff, passed.inv.sessions.pending.mem_iff]
    exact List.mem_map_of_mem mine
  obtain ⟨-, -, is, rfl⟩ := Step.ran passed.ran
  refine tally.append passed (fun id => le_refl _) ?_ (fun id => le_refl _) trivial
  simp only [pendingOf, Step.effect, SessionStep.effect, Effect.plain, Sessions.release,
    List.count_erase_self]
  omega

end Tally

/-- The slot a call has reserved is still its own. -/
def Reserved (tid : Nat) (principal : PrincipalId) (service : Service) : Prop :=
  (tid, principal) ∈ service.sessions.openings

theorem Reserved.rely (reserved : Reserved tid principal service) (moved : Rely tid service after) :
    Reserved tid principal after := by
  have counted := List.count_pos_iff.mpr reserved
  rw [← moved.openings principal] at counted
  exact List.count_pos_iff.mp counted

theorem Reserved.passed {held : List Lock} {step : Step β} {before : Service}
    (reserved : Reserved tid principal service)
    (passed : Passed deployment tid held step choice service before answer after)
    (other : ∀ step' : SessionStep β, step ≠ .sessions step') : Reserved tid principal after := by
  unfold Reserved
  rw [Step.sessions_eq other passed.ran]
  exact reserved.rely passed.moved

theorem Reserved.of_reserve
    (ran : (Step.sessions (.reserve principal)).run deployment tid choice service =
      some (.ok (), after)) : Reserved tid principal after := by
  obtain ⟨-, -, is, rfl⟩ := Step.ran ran
  clear ran
  rcases reserved : service.sessions.store.reserve deployment.sessionsPerPrincipal service.clock
    principal with ⟨given, store⟩
  cases given with
  | error error =>
    simp only [Step.effect, SessionStep.effect, reserved, Effect.plain] at is
    cases is
  | ok given =>
    simp only [Reserved, Step.effect, SessionStep.effect, reserved, Effect.plain]
    exact List.mem_cons_self

/-! ## Publication -/

/-- A session its call has published, and nothing of its own has removed. -/
def Stays (session : Session) (past : List Took) : Prop :=
  net (sessionsUnder session.id) past = 1

theorem Stays.idle {session : Session} (stays : Stays session past) {held : List Lock}
    {step : Step β} {before : Service}
    (passed : Passed deployment tid held step choice service before answer after)
    (other : ∀ step' : SessionStep β, step ≠ .sessions step') :
    Stays session (past ++ [⟨step, choice, answer, before, after⟩]) := by
  unfold Stays at stays ⊢
  rw [net_concat, stays]
  simp [sessionsUnder, Step.sessions_eq other passed.ran]

theorem Stays.leaves_something {session : Session} (stays : Stays session past) :
    ¬ LeavesNothing principal past := by
  intro nothing
  have none' := nothing.sessions session.id
  rw [stays] at none'
  omega

/-- What a publication leaves: a session nobody has heard of before. -/
theorem SessionStep.publish_left {host : HostId} {role : RoleId} {purpose : Purpose}
    {accessClass : AccessClass} {session : Session} {held : List Lock} {slots : Int}
    {before : Service} (tally : Tally deployment principal slots past service)
    (passed : Passed deployment tid held (.sessions (.publish principal host role purpose accessClass))
      choice service before session after) :
    after.journal.Opened session ∧ session.host = host ∧ session.role = role ∧
      session.principal = principal ∧
      Stays session (past ++ [⟨.sessions (.publish principal host role purpose accessClass), choice,
        session, before, after⟩]) := by
  obtain ⟨unused, -, rfl, rfl⟩ := Step.ran passed.ran
  refine ⟨⟨tid, _, List.mem_append_right _ (List.mem_singleton_self _)⟩, rfl, rfl, rfl, ?_⟩
  have untouched := tally.fresh choice.draw (Journal.unused_of_prefix passed.moved.journal unused)
  have absent := passed.inv.sessionsUnder_unused unused
  unfold Stays
  rw [net_concat]
  simp only [Step.effect, SessionStep.effect, sessionOpened]
  rw [untouched, absent]
  simp only [sessionsUnder, Sessions.publish, List.map_cons, List.count_cons_self] at absent ⊢
  omega

/-! ## The call -/

/-- A failed opening leaves nothing behind, but for a record that was refused
when the session had been published already. -/
def AllOrNothing (deployment : Deployment) (principal : PrincipalId) (past : List Took)
    (result : Except MediationError Session) : Prop :=
  ∀ error, result = .error error →
    (LeavesNothing principal past ↔ ∀ took ∈ past, Heard deployment took)

theorem AllOrNothing.of_tally (tally : Tally deployment principal 0 past service)
    (result : Except MediationError Session) :
    AllOrNothing deployment principal past result :=
  fun _ _ => ⟨fun _ => tally.heard, fun _ => tally.leavesNothing⟩

/-- What is known once an opening is done. -/
def Opens (deployment : Deployment) (tid : Nat) (principal : PrincipalId) (start : Service)
    (past : List Took) (result : Except MediationError Session) (after : Service) : Prop :=
  (Since start after ∧ At tid [] after) ∧ AllOrNothing deployment principal past result

theorem Opens.done {start : Service} {result : Except MediationError Session}
    (since : Since start service) (at' : At tid [] service)
    (all : AllOrNothing deployment principal past result) :
    Safely deployment tid (Opens deployment tid principal start) (.done result) past service :=
  fun _ _ moved => ⟨⟨since.trans moved.since, at'.rely moved⟩, all⟩

/-- A record is made exactly if it is heard. -/
theorem LedgerStep.record_heard {who : Attribution} {event : Event}
    {result : Except AuditError Entry}
    (ran : (Step.ledger (.record who event)).run deployment tid choice service =
      some (result, after)) :
    (LedgerStep.record who event).Heard deployment choice service ↔ result.isOk = true := by
  obtain ⟨-, -, is, -⟩ := Step.ran ran
  clear ran
  have decided := service.ledger.append_isOk deployment.format deployment.limits
    (service.alive choice.extra) service.clock choice.accepts who event
  simp only [LedgerStep.Heard, ← Bool.and_eq_true, ← decided]
  simp only [Step.effect, LedgerStep.effect] at is
  subst is
  split <;> rename_i eq <;> simp [eq, Except.isOk, Except.toBool, Effect.plain]

theorem checkAccount_ok {host : HostId} {role : RoleId} {accessClass : AccessClass} {target : Target}
    (checked : checkAccount deployment host role accessClass = .ok target) :
    deployment.registry.resolve host role = .ok target ∧ target.accessClass = accessClass := by
  unfold checkAccount at checked
  split at checked
  · cases checked
  · split at checked
    · cases checked
    · rename_i found sameClass
      cases checked
      exact ⟨found, by simpa using sameClass⟩

theorem openSession_safe {host : HostId} {role : RoleId} {purpose : Purpose}
    {accessClass : AccessClass} (at' : At tid [] service) :
    Safely deployment tid (Opens deployment tid principal service)
      (Bastion.openSession deployment principal host role purpose accessClass) [] service := by
  have bottom := Below.nil .publishing
  have sessions : Below [] .sessions := Below.nil .sessions
  have inside : Below [.publishing] .sessions := .single (by decide)
  have tally := Tally.nil deployment principal service
  unfold Bastion.openSession
  cases checked : checkAccount deployment host role accessClass with
  | error error => exact Opens.done (.refl service) at' (.of_tally tally _)
  | ok target =>
  obtain ⟨resolved, sameClass⟩ := checkAccount_ok checked
  obtain ⟨sameHost, sameRole⟩ := Registry.resolve_labelled resolved
  refine .passing at' trivial fun choice before admitted first passed => ?_
  have tally := tally.ofService passed
  cases admitted with
  | false => exact Opens.done passed.since passed.at' (.of_tally tally _)
  | true =>
  refine .passing passed.at' sessions fun choice₂ before₂ result second passed₂ => ?_
  have tally := tally.reserve passed₂
  have since := passed.since.trans passed₂.since
  match result with
  | .error error => exact Opens.done since passed₂.at' (.of_tally tally _)
  | .ok () =>
  have reserved := Reserved.of_reserve passed₂.ran
  refine .passing passed₂.at' trivial fun choice₃ before₃ dialled third passed₃ => ?_
  have tally := tally.dial passed₃
  have reserved := reserved.passed passed₃ (by simp)
  have since := since.trans passed₃.since
  match dialled with
  | none =>
    refine .act passed₃.at' not_false (fun later _ moved at' => ⟨trivial, reserved.rely moved⟩) ?_
    intro choice₄ before₄ _ fourth passed₄
    have tally := tally.release passed₄ (reserved.rely passed₄.moved)
    exact Opens.done (since.trans passed₄.since) passed₄.at' (.of_tally tally _)
  | some connection =>
  obtain ⟨hostIs, roleIs⟩ := LinkStep.dial_left passed₃.ran
  refine .passing passed₃.at' trivial fun choice₄ before₄ admitted fourth passed₄ => ?_
  have tally := tally.ofService passed₄
  have reserved := reserved.passed passed₄ (by simp)
  have since := since.trans passed₄.since
  cases admitted with
  | false =>
    refine .act passed₄.at' not_false (fun later _ moved at' => ⟨trivial, reserved.rely moved⟩) ?_
    intro choice₅ before₅ _ fifth passed₅
    have tally := tally.release passed₅ (reserved.rely passed₅.moved)
    refine .passing passed₅.at' trivial fun choice₆ before₆ _ sixth passed₆ => ?_
    have tally := tally.hangUp passed₆
    exact Opens.done ((since.trans passed₅.since).trans passed₆.since) passed₆.at' (.of_tally tally _)
  | true =>
  refine .act passed₄.at' not_false (fun later _ moved at' => ⟨at'.takes bottom, .inl rfl⟩) ?_
  intro choice₅ before₅ _ fifth passed₅
  have passed₅ := passed₅.leaves rfl (show _ = [.publishing] from rfl)
  have tally := tally.ofService passed₅
  have reserved := reserved.passed passed₅ (by simp)
  have since := since.trans passed₅.since
  refine .act passed₅.at' not_false (fun later _ moved at' =>
    ⟨at'.takes inside, reserved.rely moved, target, resolved, sameClass⟩) ?_
  intro choice₆ before₆ session sixth passed₆
  have passed₆ := passed₆.leaves rfl (show _ = [.publishing] from rfl)
  have since := since.trans passed₆.since
  obtain ⟨opened, hosted, roled, -, stays⟩ := SessionStep.publish_left tally passed₆
  refine .act passed₆.at' not_false (fun later _ moved at' => ⟨trivial, session,
    opened.grow moved.journal, rfl, by rw [hosted, hostIs, sameHost],
    by rw [roled, roleIs, sameRole]⟩) ?_
  intro choice₇ before₇ _ seventh passed₇
  have stays := stays.idle passed₇ (by simp)
  have since := since.trans passed₇.since
  refine .act passed₇.at' not_false (fun later _ moved at' =>
    ⟨at'.has (List.mem_singleton_self _), .inl rfl⟩) fun choice₈ before₈ _ eighth passed₈ => ?_
  have passed₈ := passed₈.leaves rfl bottom.given
  have stays := stays.idle passed₈ (by simp)
  have since := since.trans passed₈.since
  refine .passing passed₈.at' rfl fun choice₉ before₉ result ninth passed₉ => ?_
  have stays := stays.idle passed₉ (by simp)
  have since := since.trans passed₉.since
  match result with
  | .error error =>
    refine Opens.done since passed₉.at' fun _ _ =>
      ⟨fun nothing => absurd nothing stays.leaves_something, fun heard => ?_⟩
    have refused := heard _ (List.mem_append_right _ (List.mem_singleton_self _))
    cases (LedgerStep.record_heard passed₉.ran).mp refused
  | .ok entry =>
    change Safely _ _ _ (Bastion.reclaim >>= _) _ _
    refine .bind (reclaim_safe passed₉.kept passed₉.at') passed₉.kept ?_
    intro past _ last _ ⟨since', at', _⟩
    exact Opens.done (since.trans since') at' (fun _ failed => by cases failed)

end McpSsh.Bastion
