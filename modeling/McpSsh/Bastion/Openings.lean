import McpSsh.Bastion.Endings

/-!
# Whether a session's history starts with its opening

An opening makes its session visible, and records it only then. A call that
finds the session in between, or after that record was refused, can be the
first to name it. Where every session a call finds has its opening in the
record, each history starts with it.
-/

namespace McpSsh.Bastion

open Interleaving History

variable {deployment : Deployment} {tid : Nat} {choice : Choice} {service after : Service}
variable {α β : Type} {step : Step β} {answer : β} {known : SessionId → Prop}

/-! ## What a call has found -/

/-- The session a step has found in the store. -/
def SessionStep.learns {β : Type} : SessionStep β → β → Option SessionId
  | .useSession .., .ok session => some session.id
  | .claim _, some session => some session.id
  | _, _ => none

def Step.learns {β : Type} : Step β → β → Option SessionId
  | .sessions step, answer => step.learns answer
  | _, _ => none

/-- The session a step would find. -/
def SessionStep.finds (clock : Nat) (store : Sessions) {β : Type} : SessionStep β → Option SessionId
  | .useSession id principal => (store.useSession clock id principal).1.toOption.map (·.id)
  | .claim id => (store.find id).map (·.id)
  | _ => none

theorem SessionStep.learns_found {step : SessionStep β} {id : SessionId}
    (learnt : step.learns answer = some id)
    (ran : (Step.sessions step).run deployment tid choice service = some (answer, after)) :
    step.finds service.clock service.sessions.store = some id := by
  obtain ⟨-, -, is, -⟩ := Step.ran ran
  cases step with
  | useSession sought principal =>
    cases answer with
    | error => cases learnt
    | ok session =>
      cases learnt
      change _ = (service.sessions.store.useSession service.clock sought principal).1 at is
      simp [SessionStep.finds, ← is, Except.toOption]
  | claim sought =>
    simp only [Step.effect, SessionStep.effect] at is
    split at is
    · subst is
      cases learnt
    · rename_i session found
      subst is
      rw [SessionStep.finds, found]
      exact learnt
  | _ => cases learnt

/-! ## What a call names -/

/-- The session a step is to name in the record, of those steps that have to
know it themselves: an opening's record is of the session just opened, and an
approval's or an answer's of one that is in the record. -/
def LedgerStep.named {β : Type} : LedgerStep β → Option SessionId
  | .recordIntent decision _ => some decision.session.id
  | .record who event => if event.isOpening then none else some who.session
  | _ => none

def Step.named {β : Type} : Step β → Option SessionId
  | .ledger step => step.named
  | _ => none

def Step.Nameless (γ : Type) (step : Step γ) : Prop := step.named = none

def Kind.nameless : Kind → Bool
  | .intent | .ending | .account => false
  | _ => true

theorem Step.nameless_of_kind {γ : Type} (step : Step γ) (nameless : step.kind.nameless = true) :
    Step.Nameless γ step := by
  cases step with
  | ledger step =>
    cases step with
    | recordIntent => cases nameless
    | record who event => cases event <;> first | rfl | cases nameless
    | _ => rfl
  | _ => rfl

theorem Takes.nameless {kinds : List Kind} {program : Prog α} (takes : Takes kinds program)
    (nameless : kinds.all Kind.nameless = true) : program.All Step.Nameless :=
  takes.each nameless fun _ step => step.nameless_of_kind

/-- A program that names in the record only sessions it knows or has found. -/
abbrev Knows (known : SessionId → Prop) (program : Prog α) : Prop :=
  Program.Informed (fun _ step id => Step.named step = some id)
    (fun _ step answer id => Step.learns step answer = some id) known program

theorem Knows.of_nameless {program : Prog α} (nameless : program.All Step.Nameless) :
    Knows known program :=
  .of_all (nameless.mono fun _ _ none' _ is => by cases none'.symm.trans is)

/-- A step that names nothing. -/
theorem Knows.nameless {step : Step β} {next : β → Prog α} (nameless : step.named = none)
    (rest : ∀ answer, Knows (fun id => known id ∨ step.learns answer = some id) (next answer)) :
    Knows known (.act step next) :=
  .act _ _ _ (fun _ is => by cases nameless.symm.trans is) rest

theorem authorizeAction_knows (principal : PrincipalId) (id : SessionId)
    (agentIntent : CommandIntent) (action : Except MediationError Action) :
    Knows known (authorizeAction deployment principal id agentIntent action) := by
  refine Knows.nameless rfl fun stopping => ?_
  cases stopping with
  | true => exact .done _ _
  | false =>
  refine Knows.nameless rfl fun used => ?_
  cases used with
  | error => exact .done _ _
  | ok session =>
  cases action with
  | error => exact .done _ _
  | ok action =>
  refine .act _ _ _ (fun name named => .inr ?_) fun recorded => ?_
  · change some (deployment.review.decideAction session action).session.id = some name at named
    rw [ReviewMode.decideAction_session] at named
    exact named
  cases recorded with
  | error => exact .done _ _
  | ok intended =>
  refine Knows.of_nameless ?_
  change Program.All _ (admission deployment principal session.id action intended >>= _)
  exact .bind ((admission_takes principal session.id action intended).nameless rfl) fun _ =>
    .act _ _ rfl fun _ => .done _

theorem submit_knows (principal : PrincipalId) (session : SessionId) (agentIntent : CommandIntent)
    (work : Work) : Knows known (Bastion.submit deployment principal session agentIntent work) := by
  refine Knows.nameless rfl fun admitted => ?_
  cases admitted with
  | false => exact .done _ _
  | true =>
  change Knows _ (authorizeAction deployment principal session agentIntent work.action >>= _)
  refine .bind (authorizeAction_knows principal session agentIntent work.action) fun result => ?_
  rcases result with error | ⟨session, admission⟩
  · exact .done _ _
  · exact Knows.of_nameless ((perform_takes session admission work.payload).nameless rfl)

theorem closeSession_knows (principal : PrincipalId) (id : SessionId)
    (reply : Except MediationError Unit → Reply) :
    Knows known (Bastion.closeSession principal id >>= fun result => pure (reply result)) := by
  refine Knows.nameless rfl fun admitted => ?_
  cases admitted with
  | false => exact .done _ _
  | true =>
  refine Knows.nameless rfl fun _ => Knows.nameless rfl fun used => ?_
  cases used with
  | error => exact Knows.nameless rfl fun _ => .done _ _
  | ok session =>
  refine .act _ _ _ (fun name named => .inr named) fun recorded => ?_
  cases recorded with
  | error => exact Knows.nameless rfl fun _ => .done _ _
  | ok =>
  refine Knows.nameless rfl fun closed => ?_
  cases closed with
  | error => exact Knows.nameless rfl fun _ => .done _ _
  | ok =>
  exact Knows.nameless rfl fun holder => Knows.nameless rfl fun _ =>
    Knows.of_nameless ((closeRemoved_takes holder _).reply.nameless rfl)

theorem terminateSession_knows (id : SessionId) (operator : PrincipalId)
    (reply : Except MediationError Unit → Reply) :
    Knows known (Bastion.terminateSession id operator >>= fun result => pure (reply result)) := by
  refine Knows.nameless rfl fun admitted => ?_
  cases admitted with
  | false => exact .done _ _
  | true =>
  refine Knows.nameless rfl fun _ => Knows.nameless rfl fun claimed => ?_
  cases claimed with
  | none => exact Knows.nameless rfl fun _ => .done _ _
  | some session =>
  refine .act _ _ _ (fun name named => .inr named) fun recorded => ?_
  cases recorded with
  | error => exact Knows.nameless rfl fun _ => Knows.nameless rfl fun _ => .done _ _
  | ok =>
  exact Knows.nameless rfl fun _ => Knows.nameless rfl fun holder => Knows.nameless rfl fun _ =>
    Knows.of_nameless ((closeRemoved_takes holder _).reply.nameless rfl)

/-- The session a call is told of: what it accounts for is in the record. -/
def Call.knows : Call → SessionId → Prop
  | .account who .., id => who.session = id
  | _, _ => False

theorem Call.program_knows (call : Call) : Knows call.knows (call.program deployment) := by
  cases call with
  | authorize principal session agentIntent action =>
    exact .bind (authorizeAction_knows principal session agentIntent action) fun _ => .done _ _
  | submit principal session agentIntent work =>
    exact .bind (submit_knows principal session agentIntent work) fun _ => .done _ _
  | closeSession principal session => exact closeSession_knows principal session _
  | terminateSession session operator => exact terminateSession_knows session operator _
  | openSession | decide | approveSession | revokeStanding | reclaim | stop =>
    exact .of_nameless ((Call.program_takes _).nameless rfl)
  | account who event about =>
    refine .act _ _ _ (fun name named => ?_) fun _ => .done _ _
    change (if event.isOpening then none else some who.session) = some name at named
    split at named
    · cases named
    · exact Option.some.inj named

/-! ## What the record says first -/

/-- An entry is an opening, or comes after that of its session. -/
def Introduced (past : List Entry) (entry : Entry) : Prop :=
  entry.event.isOpening = true ∨
    ∃ opening ∈ past, opening.event.isOpening = true ∧ opening.who.session = entry.who.session

/-- A session's opening is in the record. -/
def Service.introduced (service : Service) (id : SessionId) : Bool :=
  service.journal.entries.any (fun entry => entry.event.isOpening && entry.who.session = id)

theorem Service.introduced_iff {id : SessionId} : service.introduced id = true ↔
    ∃ opening ∈ service.journal.entries, opening.event.isOpening = true ∧
      opening.who.session = id := by
  simp [Service.introduced]

/-- A session some entry names has been introduced. -/
theorem Service.introduced_of_named (first : Warranted Introduced service.journal.entries)
    {entry : Entry} (member : entry ∈ service.journal.entries) :
    service.introduced entry.who.session = true := by
  rw [introduced_iff]
  obtain ⟨past, stands, introduced⟩ := first.of_mem member
  rcases introduced with opening | ⟨opening, inside, opens, same⟩
  · exact ⟨entry, member, opening, rfl⟩
  · exact ⟨opening, stands.subset (List.mem_append_left _ inside), opens, same⟩

/-- What a step of the ledger names, if it is not an opening, was introduced
before: an approval is of an action on the record, and an answer is to a
request raised for one. -/
theorem LedgerStep.writes_introduced {step : LedgerStep β} (inv : Inv deployment service)
    (guard : step.Guard deployment tid service)
    (first : Warranted Introduced service.journal.entries)
    (named : ∀ id, step.named = some id → service.introduced id = true) {who : Attribution}
    {event : Event} (writes : step.writes = some (who, event)) :
    event.isOpening = true ∨ service.introduced who.session = true := by
  have recorded : ∀ {tid : Nat} {intended : Intended}, Note.recorded tid intended ∈ service.journal →
      service.introduced intended.decision.session.id = true := by
    intro tid intended recorded
    obtain ⟨committed, -, about, -⟩ := inv.history.recorded recorded
    have introduced := Service.introduced_of_named first (Journal.mem_entries.mpr committed)
    rw [about] at introduced
    exact introduced
  cases step with
  | recordIntent decision agentIntent =>
    cases writes
    exact .inr (named _ rfl)
  | recordApproval intended grant =>
    cases writes
    exact .inr (recorded guard.grants.recorded)
  | recordAnswer answer =>
    cases writes
    obtain ⟨redeemBy, answered⟩ := guard
    obtain ⟨raiser, root, raised⟩ := inv.history.answered_raised answered
    obtain ⟨root', -, now, asked⟩ := inv.history.raised raised
    have introduced := recorded root'
    rw [asked]
    exact .inr introduced
  | record who event =>
    cases writes
    cases opening : event.isOpening with
    | true => exact .inl rfl
    | false => exact .inr (named _ (by simp [LedgerStep.named, opening]))
  | thisDeliberation | reclaim => cases writes

/-- What a step adds to the record, if all it names was introduced. -/
theorem Step.introduces (inv : Inv deployment service) (guard : step.Guard deployment tid service)
    (first : Warranted Introduced service.journal.entries)
    (named : ∀ id, step.named = some id → service.introduced id = true)
    (ran : step.run deployment tid choice service = some (answer, after)) :
    Warranted Introduced after.journal.entries := by
  obtain ⟨-, -, -, rfl⟩ := Step.ran ran
  change Warranted Introduced (Journal.entries (service.journal ++
    (step.effect deployment tid choice service).notes))
  rw [Journal.entries_append]
  refine first.append_all ?_ fun entry written => ?_
  · rintro past entry later (opening | ⟨opening, member, more⟩)
    · exact .inl opening
    · exact .inr ⟨opening, List.mem_append_left _ member, more⟩
  obtain ⟨note, noted, is⟩ := List.mem_filterMap.mp written
  have committed : Note.committed entry ∈ (step.effect deployment tid choice service).notes := by
    cases note with
    | committed other =>
      cases is
      exact noted
    | _ => cases is
  have records : step.Records := by
    suffices all : ∀ note ∈ (step.effect deployment tid choice service).notes,
        note = .committed entry → step.Records from all _ committed rfl
    apply Step.notes_cases (motive := fun note => note = .committed entry → step.Records) guard
    case committed => exact fun records _ _ => records
    all_goals
      intros
      contradiction
  cases step with
  | ledger step =>
    have writes := LedgerStep.committed choice inv committed
    exact (LedgerStep.writes_introduced inv guard.2 first named writes).imp_right
      Service.introduced_iff.mp
  | _ => cases records

/-! ## Runs in which sessions are introduced -/

/-- Whether a move finds no session that has not been introduced. What is
accounted for is in the record already: the ledger looks its decision up. -/
def introduces (world : World) : BastionMove → Bool
  | .spawn (.account who _ _) =>
    world.shared.journal.entries.any (fun entry => entry.who.session = who.session)
  | .turn tid _ =>
    match world.threads[tid]? with
    | some ⟨_, .act (.sessions step) _, _⟩ =>
      (step.finds world.shared.clock world.shared.sessions.store).all world.shared.introduced
    | _ => true
  | _ => true

/-- Reached by moves that find no session that has not been introduced. -/
abbrev Introducing (deployment : Deployment) (before after : World) : Prop :=
  Runs (semantics deployment) (Call.program deployment)
    (fun world move => introduces world move = true) before after

/-- The record starts each history with its opening, and whatever calls have
found or been told of was introduced. -/
structure Begun (world : World) : Prop where
  first : Warranted Introduced world.shared.journal.entries
  found : ∀ (tid : Nat) (thread : Thread Step Call Choice Reply Service),
    world.threads[tid]? = some thread → ∀ taken ∈ thread.past, ∀ id,
      taken.step.learns taken.answer = some id → world.shared.introduced id = true
  told : ∀ (tid : Nat) (thread : Thread Step Call Choice Reply Service),
    world.threads[tid]? = some thread → ∀ id, thread.call.knows id →
      world.shared.introduced id = true

theorem Service.introduced_mono {id : SessionId}
    (grows : service.journal <+: after.journal) (introduced : service.introduced id = true) :
    after.introduced id = true := by
  rw [introduced_iff] at introduced ⊢
  obtain ⟨opening, member, more⟩ := introduced
  exact ⟨opening, Journal.mem_entries.mpr (grows.subset (Journal.mem_entries.mp member)), more⟩

namespace Begun
variable {world : World} {past : List Took}

/-- What a thread is about to name has been introduced. -/
theorem named (begun : Begun world) (reached : Reachable deployment world) {call : Call}
    {next : β → Prog Reply}
    (found : world.threads[tid]? = some ⟨call, .act step next, past⟩) :
    ∀ id, step.named = some id → world.shared.introduced id = true := by
  intro id named
  obtain ⟨clock, run⟩ := reached
  have leads := run.traced (fun _ _ there => by cases there) tid _ found
  cases call.program_knows.leads leads with
  | act _ _ _ here _ =>
    rcases here id named with told | ⟨taken, member, learnt⟩
    · exact begun.told tid _ found id told
    · exact begun.found tid _ found taken member id learnt

theorem spawn (begun : Begun world) {call : Call} (ok : introduces world (.spawn call) = true) :
    Begun { world with threads := world.threads ++ [⟨call, call.program deployment, []⟩] } := by
  have cases' : ∀ (tid : Nat) (thread : Thread Step Call Choice Reply Service),
      (world.threads ++ [⟨call, call.program deployment, []⟩])[tid]? = some thread →
      world.threads[tid]? = some thread ∨ thread = ⟨call, call.program deployment, []⟩ := by
    intro tid thread found
    rcases Nat.lt_or_ge tid world.threads.length with old | new
    · exact .inl (List.getElem?_append_left old ▸ found)
    · rw [List.getElem?_append_right new, List.getElem?_singleton] at found
      split at found
      · exact .inr (Option.some.inj found).symm
      · cases found
  refine ⟨begun.first, fun tid thread found taken member => ?_, fun tid thread found id knows => ?_⟩
  · rcases cases' tid thread found with old | rfl
    · exact begun.found tid thread old taken member
    · cases member
  · rcases cases' tid thread found with old | rfl
    · exact begun.told tid thread old id knows
    · cases call with
      | account who =>
        obtain rfl := knows
        obtain ⟨entry, member, same⟩ := List.any_eq_true.mp ok
        exact of_decide_eq_true same ▸ Service.introduced_of_named begun.first member
      | _ => cases knows

theorem turn (begun : Begun world) (reached : Reachable deployment world) {last : World}
    (ok : introduces world (.turn tid choice) = true)
    (moved : world.move (semantics deployment) (Call.program deployment) (.turn tid choice) =
      some last) : Begun last := by
  obtain ⟨call, past, β, step, next, answer, there, ran, threads⟩ := World.move_turn moved
  have grows := (Step.since reached.inv ran).journal
  have cases' : ∀ (other : Nat) (thread : Thread Step Call Choice Reply Service),
      last.threads[other]? = some thread → world.threads[other]? = some thread ∨
        thread = ⟨call, next answer, past ++ [⟨step, choice, answer, world.shared, last.shared⟩]⟩ := by
    intro other thread found
    rw [threads] at found
    rcases eq_or_ne tid other with rfl | differ
    · rw [List.getElem?_set_self (List.getElem?_eq_some_iff.mp there).1] at found
      exact .inr (Option.some.inj found).symm
    · rw [List.getElem?_set_ne differ] at found
      exact .inl found
  refine ⟨Step.introduces reached.inv (reached.good.guard there) begun.first
    (begun.named reached there) ran, fun other thread found taken member id learnt => ?_,
    fun other thread found id knows => ?_⟩
  · refine Service.introduced_mono grows ?_
    rcases cases' other thread found with old | rfl
    · exact begun.found other thread old taken member id learnt
    rcases List.mem_append.mp member with before | new
    · exact begun.found tid _ there taken before id learnt
    -- It has just been found, and nothing is found that was not introduced.
    obtain rfl := List.mem_singleton.mp new
    change step.learns answer = some id at learnt
    cases step with
    | sessions step =>
      simp only [introduces, there, SessionStep.learns_found learnt ran] at ok
      exact ok
    | _ => cases learnt
  · refine Service.introduced_mono grows ?_
    rcases cases' other thread found with old | rfl
    · exact begun.told other thread old id knows
    · exact begun.told tid _ there id knows

theorem environment (begun : Begun world) {happening : Happening} {shared : Service}
    (happened : happening.run world.shared = some shared) : Begun { world with shared } := by
  have grows := (Happening.idle happened).grows
  refine ⟨?_, fun tid thread found taken member id learnt =>
    Service.introduced_mono grows (begun.found tid thread found taken member id learnt),
    fun tid thread found id knows =>
      Service.introduced_mono grows (begun.told tid thread found id knows)⟩
  have same : shared.journal = world.shared.journal := Happening.journal happened
  change Warranted Introduced shared.journal.entries
  rw [same]
  exact begun.first

end Begun

theorem Introducing.begun {clock : Nat} {world : World}
    (run : Introducing deployment (World.new deployment clock) world) :
    Reachable deployment world ∧ Begun world := by
  induction run with
  | refl =>
    refine ⟨⟨clock, .refl⟩, .nil, fun _ _ found => ?_, fun _ _ found => ?_⟩ <;> cases found
  | tail run step ih =>
    obtain ⟨move, ok, moved⟩ := step
    obtain ⟨reached, begun⟩ := ih
    refine ⟨⟨clock, .tail (Runs.mono (fun _ _ _ => trivial) run) ⟨move, trivial, moved⟩⟩, ?_⟩
    cases move with
    | spawn call =>
      cases moved
      exact begun.spawn ok
    | turn tid choice => exact begun.turn reached ok moved
    | environment event =>
      obtain ⟨shared, happened, rfl⟩ := Option.map_eq_some_iff.mp moved
      exact begun.environment happened

/-- **Each history starts with its opening where calls find only sessions whose
opening is in the record.** -/
theorem opening_first {clock : Nat} {world : World}
    (run : Introducing deployment (World.new deployment clock) world) {id : SessionId}
    {first : Entry}
    (names : world.shared.journal.entries.find? (fun entry => entry.who.session = id) = some first) :
    first.event.isOpening = true := by
  obtain ⟨-, begun⟩ := Introducing.begun run
  obtain ⟨about, past, later, split, before⟩ := List.find?_eq_some_iff_append.mp names
  rcases begun.first past first later split with opening | ⟨opening, member, -, same⟩
  · exact opening
  · have other := before opening member
    simp [same, of_decide_eq_true about] at other

/-! ## On the sample -/

/-- A session is published, and terminated before its opening is recorded. -/
def Sample.overtaken : List BastionMove :=
  .spawn (.openSession alice web root purpose .privileged) :: turns 0 0 8 ++
    .spawn (.terminateSession ⟨5⟩ alice) :: turns 1 20 6 ++ [turn 0 40]

/-- The first entry of the sample's session is its end. -/
theorem opening_not_first : ∃ first,
    Reachable Sample.reviewed (Sample.run Sample.overtaken) ∧
    (Sample.run Sample.overtaken).shared.journal.entries.find?
      (fun entry => entry.who.session = ⟨5⟩) = some first ∧ first.event.isOpening = false := by
  have one : ((Sample.run Sample.overtaken).shared.journal.entries.find?
      (fun entry => entry.who.session = ⟨5⟩)).map (·.event.isOpening) = some false := by
    decide +kernel
  obtain ⟨first, found, ends⟩ := Option.map_eq_some_iff.mp one
  exact ⟨first, Sample.run_reachable Sample.overtaken, found, ends⟩

/-- A session is opened and closed, and nobody else finds it. -/
def Sample.introduced : World :=
  ((World.new reviewed 0).playIf (semantics reviewed) (Call.program reviewed) introduces
    closed).getD (World.new reviewed 0)

theorem Sample.introduced_runs : Introducing reviewed (World.new reviewed 0) introduced := by
  unfold introduced
  cases played : (World.new reviewed 0).playIf (semantics reviewed) (Call.program reviewed)
      introduces closed with
  | none => exact .refl
  | some world => exact World.playIf_runs played

/-- The history of the sample's session starts with its opening. -/
theorem opening_first_introduced : ∃ first,
    Sample.introduced.shared.journal.entries.find? (fun entry => entry.who.session = ⟨5⟩) =
      some first ∧ first.event.isOpening = true := by
  have one : (Sample.introduced.shared.journal.entries.find?
      (fun entry => entry.who.session = ⟨5⟩)).isSome := by decide +kernel
  obtain ⟨first, found⟩ := Option.isSome_iff_exists.mp one
  exact ⟨first, found, opening_first Sample.introduced_runs found⟩

end McpSsh.Bastion
