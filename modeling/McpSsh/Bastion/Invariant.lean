import McpSsh.Bastion.Warrant
import McpSsh.Approval.Invariant
import McpSsh.SessionStore

/-!
# The invariant of the service

One structure for each part, over that part and the journal, and with each what
it takes to outlast a longer journal. `Rely` is what a call may count on while
others move: nothing of its own changes, the journal grows, and a session that
has gone does not come back. `Guard` is what a call has to know to take a step.
-/

namespace McpSsh.Bastion

open History

variable {deployment : Deployment} {journal later : Journal}

/-! ## The parts -/

/-- Every session held was opened, once; every pending slot has its call. -/
structure SessionsOk (journal : Journal) (part : SessionPart) : Prop where
  opened : ∀ session ∈ part.store.held, journal.Opened session
  ids : part.store.Distinct
  pending : part.store.pending.Perm (part.openings.map Prod.snd)

theorem SessionsOk.grow {part : SessionPart} (ok : SessionsOk journal part)
    (grows : journal <+: later) : SessionsOk later part :=
  { ok with opened := fun session member => (ok.opened session member).grow grows }

/-- What a held request says about itself is what happened to it. -/
structure HeldOk (deployment : Deployment) (journal : Journal) (held : Approvals.Held) : Prop where
  raised : ∃ tid intended, Note.raised tid intended held.asked ∈ journal ∧
    held.action = deployment.approvals.actionOf intended
  proof : held.state.isWaiting = true ∨ held.state.agreedBy.isSome = true →
    held.proof = some held.asked.decided
  waiting : held.state.isWaiting = true → ∀ note ∈ journal, note.answers ≠ some held.asked.id
  approved : ∀ by_ recorded, held.state = .approved by_ recorded →
    ∃ tid answer, Note.answered tid answer held.redeemBy ∈ journal ∧ answer.asked = held.asked ∧
      answer.approver = by_ ∧ answer.agreed = true ∧
      (recorded = true → journal.Agreed answer held.redeemBy)

theorem HeldOk.grow {held : Approvals.Held} (ok : HeldOk deployment journal held)
    {notes : List Note} (quiet : ∀ note ∈ notes, note.answers = none) :
    HeldOk deployment (journal ++ notes) held where
  raised := by
    obtain ⟨tid, intended, member, action⟩ := ok.raised
    exact ⟨tid, intended, List.mem_append_left _ member, action⟩
  proof := ok.proof
  waiting := by
    intro waits note member
    rcases List.mem_append.mp member with old | new
    · exact ok.waiting waits note old
    · simp [quiet note new]
  approved := by
    intro by_ recorded state
    obtain ⟨tid, answer, member, asked, approver, agreed, inRecord⟩ := ok.approved by_ recorded state
    exact ⟨tid, answer, List.mem_append_left _ member, asked, approver, agreed,
      fun yes => (inRecord yes).grow (List.prefix_append _ _)⟩

/-- The request store is tidy, each request is as it says, and an agreement
that is in the record is spent, unless its call has yet to say so. -/
structure RequestsOk (deployment : Deployment) (journal : Journal) (part : RequestPart) : Prop where
  tidy : ∃ owner, part.requests.Tidy deployment.waitingPerSession owner ∧
    ∀ session, journal.Opened session → owner session.id = session.principal
  held : ∀ held ∈ part.requests, HeldOk deployment journal held
  unspent : ∀ held ∈ part.requests, held.isOpen = true →
    ∀ note ∈ journal, note.collects = some held.asked.id → part.collecting = some held.asked.id

/-- A note that answers nothing, collects nothing and opens no session. -/
def Note.quiet (note : Note) : Bool :=
  match note with
  | .answered .. | .collected .. | .opened .. => false
  | _ => true

theorem Opened_of_quiet {notes : List Note} (quiet : ∀ note ∈ notes, note.quiet = true)
    {session : Session} (opened : Journal.Opened (journal ++ notes) session) :
    journal.Opened session := by
  obtain ⟨tid, lastUsed, member⟩ := opened
  rcases List.mem_append.mp member with old | new
  · exact ⟨tid, lastUsed, old⟩
  · cases quiet _ new

theorem RequestsOk.grow {part : RequestPart} (ok : RequestsOk deployment journal part)
    {notes : List Note} (quiet : ∀ note ∈ notes, note.quiet = true) :
    RequestsOk deployment (journal ++ notes) part where
  tidy := by
    obtain ⟨owner, tidy, owns⟩ := ok.tidy
    exact ⟨owner, tidy, fun session opened => owns session (Opened_of_quiet quiet opened)⟩
  held := fun held member => (ok.held held member).grow (by
    intro note new
    have := quiet note new
    cases note <;> simp_all [Note.quiet, Note.answers])
  unspent := by
    intro held member opened note inside collects
    rcases List.mem_append.mp inside with old | new
    · exact ok.unspent held member opened note old collects
    · have := quiet note new
      cases note <;> simp_all [Note.quiet, Note.collects]

/-- Every agreement in the table was granted and has not been withdrawn, and a
session has one at most. -/
structure StandingOk (journal : Journal) (standing : Approvals.Agreements) : Prop where
  granted : ∀ agreement ∈ standing, ∃ tid grantedAt live,
    Note.granted tid ⟨agreement, grantedAt, live⟩ ∈ journal
  stands : ∀ agreement ∈ standing, Note.withdrew agreement.id ∉ journal
  oneEach : (standing.map (·.session)).Nodup

theorem StandingOk.grow {standing : Approvals.Agreements} (ok : StandingOk journal standing)
    {notes : List Note} (stay : ∀ note ∈ notes, ∀ id, note ≠ .withdrew id) :
    StandingOk (journal ++ notes) standing where
  granted := by
    intro agreement member
    obtain ⟨tid, grantedAt, live, inside⟩ := ok.granted agreement member
    exact ⟨tid, grantedAt, live, List.mem_append_left _ inside⟩
  stands := by
    intro agreement member inside
    rcases List.mem_append.mp inside with old | new
    · exact ok.stands agreement member old
    · exact stay _ new _ rfl
  oneEach := ok.oneEach

/-- A proof somebody followed here holds: a request, or a call. -/
def Needed (requests : Approvals.Requests) (proofs : List (Nat × Nat)) (sequence : Nat) : Prop :=
  (∃ held ∈ requests, held.proof = some sequence) ∨ ∃ tid, (tid, sequence) ∈ proofs

/-- The ledger stands for what was committed, and keeps every proof held. -/
structure RecordOk (deployment : Deployment) (journal : Journal) (requests : Approvals.Requests)
    (proofs : List (Nat × Nat)) (ledger : Ledger.State) : Prop where
  represents : Ledger.Represents deployment.format deployment.genesis journal.entries ledger
  pinned : ∀ sequence, Needed requests proofs sequence →
    ∃ proof ∈ ledger.proofs, proof.entry.sequence = sequence

theorem RecordOk.grow {requests : Approvals.Requests} {proofs : List (Nat × Nat)}
    {ledger : Ledger.State} (ok : RecordOk deployment journal requests proofs ledger)
    {notes : List Note} (none' : ∀ note ∈ notes, note.entry = none) :
    RecordOk deployment (journal ++ notes) requests proofs ledger where
  represents := by
    rw [Journal.entries_append, List.filterMap_eq_nil_iff.mpr none', List.append_nil]
    exact ok.represents
  pinned := ok.pinned

/-- Fewer holders need fewer proofs. -/
theorem RecordOk.fewer {requests fewer : Approvals.Requests} {proofs less : List (Nat × Nat)}
    {ledger : Ledger.State} (ok : RecordOk deployment journal requests proofs ledger)
    (sub : ∀ sequence, Needed fewer less sequence → Needed requests proofs sequence) :
    RecordOk deployment journal fewer less ledger :=
  ⟨ok.represents, fun sequence needed => ok.pinned sequence (sub sequence needed)⟩

/-- A holder was placed for its session and holds a connection of it. -/
structure LinksOk (journal : Journal) (part : LinkPart) : Prop where
  holders : ∀ holder ∈ part.holders, ∃ tid, Note.placed tid holder.id holder.session ∈ journal
  bound : ∀ holder ∈ part.holders, ∃ tid, Note.bound tid holder.session holder.connection ∈ journal
  connections : ∀ session holder, (session, holder) ∈ part.connections →
    ∃ tid, Note.placed tid holder session ∈ journal

theorem LinksOk.grow {part : LinkPart} (ok : LinksOk journal part) (grows : journal <+: later) :
    LinksOk later part where
  holders := fun holder member =>
    let ⟨tid, inside⟩ := ok.holders holder member
    ⟨tid, grows.subset inside⟩
  bound := fun holder member =>
    let ⟨tid, inside⟩ := ok.bound holder member
    ⟨tid, grows.subset inside⟩
  connections := fun session holder member =>
    let ⟨tid, inside⟩ := ok.connections session holder member
    ⟨tid, grows.subset inside⟩

/-- Every run in the store was registered, and has its own identifier. -/
structure RunsOk (journal : Journal) (part : RunPart) : Prop where
  registered : ∀ run ∈ part.runs, ∃ tid session, Note.registered tid session run ∈ journal
  ids : (part.runs.map (·.id)).Nodup

theorem RunsOk.grow {part : RunPart} (ok : RunsOk journal part) (grows : journal <+: later) :
    RunsOk later part :=
  { ok with registered := fun run member =>
      let ⟨tid, session, inside⟩ := ok.registered run member
      ⟨tid, session, grows.subset inside⟩ }

/-- The invariant of the service. -/
structure Inv (deployment : Deployment) (service : Service) : Prop where
  history : HistoryOk deployment service.journal
  sessions : SessionsOk service.journal service.sessions
  requests : RequestsOk deployment service.journal service.approvals
  collecting : service.locks .requests = none → service.approvals.collecting = none
  standing : StandingOk service.journal service.standing
  record : RecordOk deployment service.journal service.approvals.requests service.proofs
    service.ledger
  links : LinksOk service.journal service.links
  runs : RunsOk service.journal service.runs

theorem Inv.new (deployment : Deployment) (clock : Nat) : Inv deployment (Service.new deployment clock) where
  history := .nil deployment
  sessions := ⟨by simp [Service.new], List.nodup_nil, by simp [Service.new]⟩
  requests := ⟨⟨fun _ => default, .nil _ _, by
      rintro session ⟨tid, lastUsed, member⟩
      cases member⟩, by simp [Service.new], by simp [Service.new]⟩
  collecting := fun _ => rfl
  standing := ⟨by simp [Service.new], by simp [Service.new], by simp [Service.new]⟩
  record := ⟨Ledger.Represents.new _ _, by
    rintro sequence (⟨held, member, -⟩ | ⟨tid, member⟩) <;> cases member⟩
  links := ⟨by simp [Service.new], by simp [Service.new], by simp [Service.new]⟩
  runs := ⟨by simp [Service.new], by simp [Service.new]⟩

/-! ## What a call relies on -/

/-- What others leave alone. -/
structure Rely (tid : Nat) (before after : Service) : Prop where
  clock : before.clock ≤ after.clock
  journal : before.journal <+: after.journal
  locks : ∀ which, before.locks which = some tid ↔ after.locks which = some tid
  requests : before.locks .requests = some tid → after.approvals = before.approvals
  uncollected : before.locks .requests = some tid → ∀ note ∈ after.journal,
    note.collects ≠ none → note ∈ before.journal
  standing : before.locks .standing = some tid → after.standing = before.standing
  sessions : before.locks .sessions = some tid → after.sessions.store.held = before.sessions.store.held
  openings : ∀ principal, after.sessions.openings.count (tid, principal) =
    before.sessions.openings.count (tid, principal)
  holders : ∀ held, before.locks (.holder held.id) = some tid →
    before.links.find held.id = some held → after.links.find held.id = some held
  proofs : ∀ sequence, (tid, sequence) ∈ before.proofs → (tid, sequence) ∈ after.proofs
  mine : ∀ note ∈ after.journal, note.tid = some tid → note ∈ before.journal
  gone : ∀ session, before.journal.Opened session →
    before.sessions.store.usable before.clock session.id = none →
    after.sessions.store.usable after.clock session.id = none

theorem Rely.refl (tid : Nat) (service : Service) : Rely tid service service where
  clock := Nat.le_refl _
  journal := List.prefix_refl _
  locks := fun _ => Iff.rfl
  requests := fun _ => rfl
  uncollected := fun _ _ member _ => member
  standing := fun _ => rfl
  sessions := fun _ => rfl
  openings := fun _ => rfl
  holders := fun _ _ found => found
  proofs := fun _ member => member
  mine := fun _ member _ => member
  gone := fun _ _ gone => gone

theorem Rely.trans {tid : Nat} {a b c : Service} (first : Rely tid a b) (second : Rely tid b c) :
    Rely tid a c where
  clock := first.clock.trans second.clock
  journal := first.journal.trans second.journal
  locks := fun which => (first.locks which).trans (second.locks which)
  requests := fun mine =>
    (second.requests ((first.locks _).mp mine)).trans (first.requests mine)
  uncollected := fun mine note member collects => first.uncollected mine note
    (second.uncollected ((first.locks _).mp mine) note member collects) collects
  standing := fun mine =>
    (second.standing ((first.locks _).mp mine)).trans (first.standing mine)
  sessions := fun mine =>
    (second.sessions ((first.locks _).mp mine)).trans (first.sessions mine)
  openings := fun principal => (second.openings principal).trans (first.openings principal)
  holders := fun held mine found =>
    second.holders held ((first.locks _).mp mine) (first.holders held mine found)
  proofs := fun sequence member => second.proofs sequence (first.proofs sequence member)
  mine := fun note member tagged => first.mine note (second.mine note member tagged) tagged
  gone := fun session opened gone =>
    second.gone session (opened.grow first.journal) (first.gone session opened gone)

/-- Nothing is known of a call that has not been made. -/
structure Unknown (tid : Nat) (service : Service) : Prop where
  notes : ∀ note ∈ service.journal, note.tid ≠ some tid
  locks : ∀ which, service.locks which ≠ some tid
  openings : ∀ principal, service.sessions.openings.count (tid, principal) = 0

theorem Unknown.rely {tid : Nat} {before after : Service} (unknown : Unknown tid before)
    (moved : Rely tid before after) : Unknown tid after where
  notes := fun note member tagged => unknown.notes note (moved.mine note member tagged) tagged
  locks := fun which mine => unknown.locks which ((moved.locks which).mpr mine)
  openings := fun principal => (moved.openings principal).trans (unknown.openings principal)

/-! ## What a step has to meet -/

/-- The order in which locks are taken. -/
def Lock.rank : Lock → Nat
  | .holder _ => 0
  | .publishing => 1
  | .standing => 2
  | .requests => 3
  | .sessions => 4

/-- A lock is taken only above those held, and given back only by its holder. -/
def Use.Disciplined (tid : Nat) (service : Service) : Use → Prop
  | .takes which => ∀ other, service.locks other = some tid → other.rank < which.rank
  | .has which => service.locks which = some tid
  | .without => True

/-- What a call knows when it is about to record the agreement it found. -/
structure Collecting (deployment : Deployment) (tid : Nat) (intended : Intended) (grant : Grant)
    (service : Service) : Prop where
  lock : service.locks .requests = some tid
  collecting : service.approvals.collecting = some grant.request
  grants : service.journal.Grants deployment.approvals tid intended grant
  held : ∃ held ∈ service.approvals.requests, ∃ by_, held.state = .approved by_ true ∧
    grant = held.grant by_
  uncollected : ∀ note ∈ service.journal, note.collects ≠ some grant.request

theorem Collecting.rely {tid : Nat} {intended : Intended} {grant : Grant} {before after : Service}
    (collecting : Collecting deployment tid intended grant before) (moved : Rely tid before after) :
    Collecting deployment tid intended grant after where
  lock := (moved.locks _).mp collecting.lock
  collecting := moved.requests collecting.lock ▸ collecting.collecting
  grants := collecting.grants.grow moved.journal
  held := moved.requests collecting.lock ▸ collecting.held
  uncollected := fun note member collects => collecting.uncollected note
    (moved.uncollected collecting.lock note member (by simp [collects])) collects

/-- An approver is a person, or the agreement its call has selected and still
holds against withdrawal. -/
def Speaks (tid : Nat) (service : Service) (approver : Approver) (session : SessionId) : Prop :=
  ∀ id, approver.agreement = some id → service.locks .standing = some tid ∧
    ∃ agreement ∈ service.standing, agreement.id = id ∧ agreement.approver = approver ∧
      agreement.session = session ∧ ∃ reading, Note.selected tid agreement reading ∈ service.journal

theorem Speaks.rely {tid : Nat} {approver : Approver} {session : SessionId} {before after : Service}
    (speaks : Speaks tid before approver session) (moved : Rely tid before after) :
    Speaks tid after approver session := by
  intro id named
  obtain ⟨lock, agreement, member, same, answersAs, about, reading, selected⟩ := speaks id named
  refine ⟨(moved.locks _).mp lock, agreement, ?_, same, answersAs, about, reading,
    moved.journal.subset selected⟩
  rw [moved.standing lock]
  exact member

section
variable (deployment : Deployment) (tid : Nat) (service : Service)

def ServiceStep.Guard {β : Type} : ServiceStep β → Prop
  | .lock which => which = .publishing ∨ ∃ id, which = .holder id
  | .unlock which => which = .publishing ∨ ∃ id, which = .holder id
  | _ => True

def SessionStep.Guard {β : Type} : SessionStep β → Prop
  | .release principal => (tid, principal) ∈ service.sessions.openings
  | .publish principal host role _ accessClass =>
    (tid, principal) ∈ service.sessions.openings ∧
    ∃ target, deployment.registry.resolve host role = .ok target ∧
      target.accessClass = accessClass
  | _ => True

def RequestStep.Guard {β : Type} : RequestStep β → Prop
  | .ask intended => Note.recorded tid intended ∈ service.journal ∧
    intended.decision.verdict = .needsApproval ∧
    intended.proof = some intended.entry.sequence ∧
    (tid, intended.entry.sequence) ∈ service.proofs
  | .answer held _ approver _ => service.approvals.collecting = none ∧
    held ∈ service.approvals.requests ∧ held.state = .waiting ∧ approver.isStated = true ∧
    (approver.agreement ≠ none → service.journal.Pursues tid held.asked.id) ∧
    Speaks tid service approver held.asked.session
  | .redeem id _ _ => service.journal.Pursues tid id
  | .markRecorded id => ∃ answer redeemBy, Note.answered tid answer redeemBy ∈ service.journal ∧
    service.journal.Agreed answer redeemBy ∧ answer.asked.id = id ∧
    Speaks tid service answer.approver answer.asked.session
  | .spend id => service.approvals.collecting = some id ∧
    ∃ note ∈ service.journal, note.collects = some id
  | .unlock => ∀ id, service.approvals.collecting = some id →
    ∀ note ∈ service.journal, note.collects ≠ some id
  | .retain kept => service.approvals.collecting = none ∧
    ∀ held ∈ service.approvals.requests, held.asked.id ∉ kept →
      held.forgettable service.clock = true ∨
        service.sessions.store.usable service.clock held.asked.session = none
  | _ => True

def StandingStep.Guard {β : Type} : StandingStep β → Prop
  | .grant _ session who until_ =>
    (∃ answer redeemBy, service.journal.Agreed answer redeemBy ∧ answer.approver = .human who ∧
      answer.asked.session = session) ∧
    until_ ≤ satAdd service.clock deployment.standingCap ∧
    ∀ live, service.sessions.store.usable service.clock session = some live →
      until_ ≤ satAdd live.openedAt live.lifetime.max
  | _ => True

def LedgerStep.Guard {β : Type} : LedgerStep β → Prop
  | .recordIntent decision _ => service.journal.Opened decision.session ∧
    decision = deployment.review.decideAction decision.session decision.action
  | .recordApproval intended grant => Collecting deployment tid intended grant service
  | .recordAnswer answer => ∃ redeemBy, Note.answered tid answer redeemBy ∈ service.journal
  | .record _ event => event.isPlain = true
  | _ => True

def LinkStep.Guard {β : Type} : LinkStep β → Prop
  | .insert session connection => ∃ owner, service.journal.Opened owner ∧ owner.id = session ∧
    owner.host = connection.host ∧ owner.role = connection.role
  | .replace holder connection => ∃ owner, service.journal.Opened owner ∧
    owner.host = connection.host ∧ owner.role = connection.role ∧
    ∃ placer, Note.placed placer holder owner.id ∈ service.journal
  | _ => True

def RunStep.Guard {β : Type} : RunStep β → Prop
  | .register session receipt connection payload =>
    (∃ intended, service.journal.Minted tid intended receipt ∧
      intended.decision.session.id = session) ∧
    (∃ binder, Note.bound binder session connection ∈ service.journal) ∧
    wrongTarget receipt connection = none ∧
    (match payload with
      | none => receipt.action.kind = .execute
      | some payload => payload.suits receipt.action.operation = true) ∧
    ∀ note ∈ service.journal, note.registers ≠ some tid
  | _ => True

/-- What a call has to know to take a step. -/
def Step.Guard {β : Type} (step : Step β) : Prop :=
  step.use.Disciplined tid service ∧
  match step with
  | .service step => step.Guard
  | .sessions step => step.Guard deployment tid service
  | .requests step => step.Guard tid service
  | .standing step => step.Guard deployment service
  | .ledger step => step.Guard deployment tid service
  | .links step => step.Guard service
  | .runs step => step.Guard tid service

end

end McpSsh.Bastion
