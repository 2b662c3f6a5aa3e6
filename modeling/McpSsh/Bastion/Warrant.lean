import McpSsh.Bastion.Calls
import McpSsh.Lib.History

/-!
# What each step rests on

For each note of the journal, what has to stand before it. An answer rests on a
request, a request on a recorded decision that needs approval, a collection on
an answer that is in the record and was found in time, a run on a receipt and
on a connection of its session.

Identifiers are drawn once, a request is answered once and collected once, an
entry is the receipt of one note, and a call registers one run: these are the
keys below.
-/

namespace McpSsh.Bastion

open History

/-! ## Lookups in the journal -/

/-- The call that took a step. -/
def Note.tid : Note → Option Nat
  | .opened tid _ => some tid
  | .committed _ => none
  | .recorded tid _ => some tid
  | .raised tid _ _ => some tid
  | .joined tid _ => some tid
  | .lapsed tid _ _ => some tid
  | .found tid _ _ => some tid
  | .answered tid _ _ => some tid
  | .collected tid _ _ _ => some tid
  | .granted tid _ => some tid
  | .selected tid _ _ => some tid
  | .withdrew _ => none
  | .dialled tid _ => some tid
  | .placed tid _ _ => some tid
  | .bound tid _ _ => some tid
  | .registered tid _ _ => some tid

/-- The request a step answered. -/
def Note.answers : Note → Option RequestId
  | .answered _ answer _ => some answer.asked.id
  | _ => none

/-- The request whose agreement a step recorded. -/
def Note.collects : Note → Option RequestId
  | .collected _ _ grant _ => some grant.request
  | _ => none

/-- The entry a step minted a receipt of, or would have. -/
def Note.mints : Note → Option Nat
  | .recorded _ intended => some intended.entry.sequence
  | .collected _ _ _ receipt => some receipt.authorization.sequence
  | _ => none

/-- The call a step registered a run for. -/
def Note.registers : Note → Option Nat
  | .registered tid _ _ => some tid
  | _ => none

namespace Journal

/-- A session some call opened, but for when it was last used. -/
def Opened (journal : Journal) (session : Session) : Prop :=
  ∃ tid lastUsed, Note.opened tid { session with lastUsed } ∈ journal

/-- An agreement that was given and is in the record. -/
def Agreed (journal : Journal) (answer : Answer) (redeemBy : Nat) : Prop :=
  answer.agreed = true ∧ (∃ tid, Note.answered tid answer redeemBy ∈ journal) ∧
    ∃ entry, Note.committed entry ∈ journal ∧ entry.event = answer.event ∧
      entry.who = answer.asked.attribution

/-- A request a call raised, or found waiting for the same action. -/
def Pursues (journal : Journal) (tid : Nat) (request : RequestId) : Prop :=
  (∃ root asked, Note.raised tid root asked ∈ journal ∧ asked.id = request) ∨
    Note.joined tid request ∈ journal

/-- A receipt a call was handed for an intent it recorded. -/
def Minted (journal : Journal) (tid : Nat) (intended : Intended) (receipt : Receipt) : Prop :=
  (Note.recorded tid intended ∈ journal ∧ intended.receipt = some receipt) ∨
    ∃ grant, Note.collected tid intended grant receipt ∈ journal

/-- A grant is that of an agreement to a request raised for this very action in
this very session. -/
structure Grants (config : Approvals.Config) (journal : Journal) (tid : Nat) (intended : Intended)
    (grant : Grant) : Prop where
  recorded : Note.recorded tid intended ∈ journal
  held : intended.decision.verdict = .needsApproval
  found : ∃ reading, Note.found tid grant.request reading ∈ journal
  request : ∃ raiser root answer redeemBy, Note.raised raiser root answer.asked ∈ journal ∧
    Journal.Agreed journal answer redeemBy ∧ answer.asked.id = grant.request ∧
    config.actionOf root = config.actionOf intended ∧
    answer.asked.session = intended.decision.session.id ∧ grant.decided = answer.asked.decided ∧
    grant.approver = answer.approver

section
variable {journal later : Journal}

theorem Opened.grow {session : Session} (opened : journal.Opened session)
    (grows : journal <+: later) : later.Opened session := by
  obtain ⟨tid, lastUsed, member⟩ := opened
  exact ⟨tid, lastUsed, grows.subset member⟩

/-- When a session was last used does not matter. -/
theorem Opened.used {session : Session} (opened : journal.Opened session) (lastUsed : Nat) :
    journal.Opened { session with lastUsed } := opened

theorem Agreed.grow {answer : Answer} {redeemBy : Nat} (agreed : journal.Agreed answer redeemBy)
    (grows : journal <+: later) : later.Agreed answer redeemBy := by
  obtain ⟨yes, ⟨tid, answered⟩, entry, committed, event, who⟩ := agreed
  exact ⟨yes, ⟨tid, grows.subset answered⟩, entry, grows.subset committed, event, who⟩

theorem Pursues.grow {tid : Nat} {request : RequestId} (pursues : journal.Pursues tid request)
    (grows : journal <+: later) : later.Pursues tid request := by
  rcases pursues with ⟨root, asked, raised, same⟩ | joined
  · exact .inl ⟨root, asked, grows.subset raised, same⟩
  · exact .inr (grows.subset joined)

theorem Minted.grow {tid : Nat} {intended : Intended} {receipt : Receipt}
    (minted : journal.Minted tid intended receipt) (grows : journal <+: later) :
    later.Minted tid intended receipt := by
  rcases minted with ⟨recorded, same⟩ | ⟨grant, collected⟩
  · exact .inl ⟨grows.subset recorded, same⟩
  · exact .inr ⟨grant, grows.subset collected⟩

theorem Grants.grow {config : Approvals.Config} {tid : Nat} {intended : Intended} {grant : Grant}
    (grants : journal.Grants config tid intended grant) (grows : journal <+: later) :
    later.Grants config tid intended grant := by
  obtain ⟨recorded, held, ⟨reading, found⟩, raiser, root, answer, redeemBy, raised, agreed, rest⟩ :=
    grants
  exact ⟨grows.subset recorded, held, ⟨reading, grows.subset found⟩, raiser, root, answer, redeemBy,
    grows.subset raised, agreed.grow grows, rest⟩

theorem entries_append (journal : Journal) (notes : List Note) :
    Journal.entries (journal ++ notes) = journal.entries ++ notes.filterMap Note.entry := by
  simp [Journal.entries]

theorem mem_entries {entry : Entry} :
    entry ∈ journal.entries ↔ Note.committed entry ∈ journal := by
  simp only [Journal.entries, List.mem_filterMap]
  constructor
  · rintro ⟨note, member, same⟩
    cases note <;> simp_all [Note.entry]
  · exact fun member => ⟨_, member, rfl⟩

end

end Journal

/-! ## What a note rests on -/

/-- What an entry rests on. -/
def Rests (deployment : Deployment) (past : Journal) (who : Attribution) (event : Event) : Prop :=
  match event with
  | .answered _ => ∃ tid answer redeemBy, Note.answered tid answer redeemBy ∈ past ∧
      event = answer.event ∧ who = answer.asked.attribution
  | .approved _ => ∃ tid intended grant, past.Grants deployment.approvals tid intended grant ∧
      event = grant.event ∧ who = intended.decision.session.attribution
  | _ => True

/-- What a note rests on. -/
def Warrant (deployment : Deployment) (past : Journal) : Note → Prop
  | .opened _ session =>
    session.lifetime = deployment.lifetime ∧
    ∃ target, deployment.registry.resolve session.host session.role = .ok target ∧
      target.accessClass = session.accessClass
  | .committed entry => Rests deployment past entry.who entry.event
  | .recorded _ intended =>
    Note.committed intended.entry ∈ past ∧
    intended.entry.event = Ledger.decidedEvent intended.decision intended.agentIntent ∧
    intended.entry.who = intended.decision.session.attribution ∧
    past.Opened intended.decision.session ∧
    intended.decision =
      deployment.review.decideAction intended.decision.session intended.decision.action ∧
    (∀ receipt, intended.receipt = some receipt → intended.decision.verdict = .permit ∧
      receipt = Ledger.receiptFor intended.entry intended.decision.session intended.decision.action)
  | .raised tid intended asked =>
    Note.recorded tid intended ∈ past ∧ intended.decision.verdict = .needsApproval ∧
    ∃ now, asked = deployment.approvals.raise now asked.id intended
  | .joined _ request =>
    ∃ raiser root asked, Note.raised raiser root asked ∈ past ∧ asked.id = request
  | .lapsed .. => True
  | .found _ request reading =>
    ∃ answer redeemBy, past.Agreed answer redeemBy ∧ answer.asked.id = request ∧ reading < redeemBy
  | .answered tid answer redeemBy =>
    (∃ raiser root, Note.raised raiser root answer.asked ∈ past) ∧
    (∃ reading, redeemBy = satAdd reading deployment.windows.redeemWithin) ∧
    answer.approver.isStated = true ∧
    ∀ id, answer.approver.agreement = some id → past.Pursues tid answer.asked.id ∧
      ∃ agreement reading, Note.selected tid agreement reading ∈ past ∧
        agreement.approver = answer.approver ∧ agreement.session = answer.asked.session
  | .collected tid intended grant receipt =>
    past.Grants deployment.approvals tid intended grant ∧
    ∃ entry, Note.committed entry ∈ past ∧ entry.event = grant.event ∧
      entry.who = intended.decision.session.attribution ∧
      receipt = Ledger.receiptFor entry intended.decision.session intended.decision.action
  | .granted _ what =>
    (∃ answer redeemBy, past.Agreed answer redeemBy ∧
      answer.approver = .human what.agreement.who ∧
      answer.asked.session = what.agreement.session) ∧
    what.agreement.until_ ≤ satAdd what.grantedAt deployment.standingCap ∧
    ∀ session, what.live = some session → session.id = what.agreement.session ∧
      past.Opened session ∧
      what.agreement.until_ ≤ satAdd session.openedAt session.lifetime.max
  | .selected _ agreement reading =>
    reading < agreement.until_ ∧ Note.withdrew agreement.id ∉ past ∧
    ∃ tid grantedAt live, Note.granted tid ⟨agreement, grantedAt, live⟩ ∈ past
  | .withdrew id => ∃ tid what, Note.granted tid what ∈ past ∧ what.agreement.id = id
  | .dialled .. => True
  | .placed .. => True
  | .bound _ session connection =>
    ∃ owner, past.Opened owner ∧ owner.id = session ∧ owner.host = connection.host ∧
      owner.role = connection.role
  | .registered tid session run =>
    ∃ intended receipt, past.Minted tid intended receipt ∧
      intended.decision.session.id = session ∧ run.authorization = receipt.authorization ∧
      run.operation = receipt.action.operation ∧ run.argv = receipt.action.command.argv ∧
      (∃ binder, Note.bound binder session run.connection ∈ past) ∧
      wrongTarget receipt run.connection = none ∧
      match run.payload with
      | none => receipt.action.kind = .execute
      | some payload => payload.suits receipt.action.operation = true

/-- The history of a service. -/
structure HistoryOk (deployment : Deployment) (journal : Journal) : Prop where
  warranted : Warranted (Warrant deployment) journal
  drawn : Keyed Note.drawn journal
  answered : Keyed Note.answers journal
  collected : Keyed Note.collects journal
  minted : Keyed Note.mints journal
  registered : Keyed Note.registers journal

namespace HistoryOk
variable {deployment : Deployment} {journal : Journal}

theorem nil (deployment : Deployment) : HistoryOk deployment [] :=
  ⟨.nil, .nil, .nil, .nil, .nil, .nil⟩

/-- A note has to be warranted, and its keys new. -/
theorem append (history : HistoryOk deployment journal) {note : Note}
    (warrant : Warrant deployment journal note)
    (drawn : ∀ draw, note.drawn = some draw → journal.unused draw = true)
    (answers : ∀ id, note.answers = some id → ∀ earlier ∈ journal, earlier.answers ≠ some id)
    (collects : ∀ id, note.collects = some id → ∀ earlier ∈ journal, earlier.collects ≠ some id)
    (mints : ∀ entry, note.mints = some entry → ∀ earlier ∈ journal, earlier.mints ≠ some entry)
    (registers : ∀ tid, note.registers = some tid → ∀ earlier ∈ journal,
      earlier.registers ≠ some tid) : HistoryOk deployment (journal ++ [note]) where
  warranted := history.warranted.append warrant
  drawn := history.drawn.append (fun draw same earlier member =>
    by simpa using List.all_eq_true.mp (drawn draw same) earlier member)
  answered := history.answered.append answers
  collected := history.collected.append collects
  minted := history.minted.append mints
  registered := history.registered.append registers

/-- A note without keys only has to be warranted. -/
theorem append_plain (history : HistoryOk deployment journal) {note : Note}
    (warrant : Warrant deployment journal note) (drawn : note.drawn = none)
    (answers : note.answers = none) (collects : note.collects = none) (mints : note.mints = none)
    (registers : note.registers = none) : HistoryOk deployment (journal ++ [note]) :=
  history.append warrant (by simp [drawn]) (by simp [answers]) (by simp [collects])
    (by simp [mints]) (by simp [registers])

/-! ### What a note of the journal rests on -/

theorem of_mem (history : HistoryOk deployment journal) {note : Note} (member : note ∈ journal) :
    ∃ past, past ++ [note] <+: journal ∧ Warrant deployment past note :=
  history.warranted.of_mem member

theorem prefix_of_append {past : Journal} {note : Note} (stands : past ++ [note] <+: journal) :
    past <+: journal :=
  (List.prefix_append _ _).trans stands

theorem recorded (history : HistoryOk deployment journal) {tid : Nat} {intended : Intended}
    (member : Note.recorded tid intended ∈ journal) :
    Note.committed intended.entry ∈ journal ∧
    intended.entry.event = Ledger.decidedEvent intended.decision intended.agentIntent ∧
    intended.entry.who = intended.decision.session.attribution ∧
    journal.Opened intended.decision.session ∧
    intended.decision =
      deployment.review.decideAction intended.decision.session intended.decision.action ∧
    (∀ receipt, intended.receipt = some receipt → intended.decision.verdict = .permit ∧
      receipt = Ledger.receiptFor intended.entry intended.decision.session
        intended.decision.action) := by
  obtain ⟨past, stands, committed, event, who, opened, decision, receipt⟩ := history.of_mem member
  have grows := prefix_of_append stands
  exact ⟨grows.subset committed, event, who, opened.grow grows, decision, receipt⟩

theorem raised (history : HistoryOk deployment journal) {tid : Nat} {intended : Intended}
    {asked : Asked} (member : Note.raised tid intended asked ∈ journal) :
    Note.recorded tid intended ∈ journal ∧ intended.decision.verdict = .needsApproval ∧
      ∃ now, asked = deployment.approvals.raise now asked.id intended := by
  obtain ⟨past, stands, recorded, verdict, raise⟩ := history.of_mem member
  exact ⟨(prefix_of_append stands).subset recorded, verdict, raise⟩

/-- A request is raised in a session that was opened, in its owner's name. -/
theorem raised_opened (history : HistoryOk deployment journal) {tid : Nat} {intended : Intended}
    {asked : Asked} (member : Note.raised tid intended asked ∈ journal) :
    ∃ session, journal.Opened session ∧ session.id = asked.session ∧
      session.principal = asked.principal := by
  obtain ⟨recorded, -, now, same⟩ := history.raised member
  obtain ⟨-, -, -, opened, -⟩ := history.recorded recorded
  exact ⟨_, opened, by rw [same]; rfl, by rw [same]; rfl⟩

theorem answered_raised (history : HistoryOk deployment journal) {tid : Nat} {answer : Answer}
    {redeemBy : Nat} (member : Note.answered tid answer redeemBy ∈ journal) :
    ∃ raiser root, Note.raised raiser root answer.asked ∈ journal := by
  obtain ⟨past, stands, ⟨raiser, root, raised⟩, -⟩ := history.of_mem member
  exact ⟨raiser, root, (prefix_of_append stands).subset raised⟩

theorem collected_grants (history : HistoryOk deployment journal) {tid : Nat} {intended : Intended}
    {grant : Grant} {receipt : Receipt}
    (member : Note.collected tid intended grant receipt ∈ journal) :
    journal.Grants deployment.approvals tid intended grant ∧
      ∃ entry, Note.committed entry ∈ journal ∧ entry.event = grant.event ∧
        entry.who = intended.decision.session.attribution ∧
        receipt = Ledger.receiptFor entry intended.decision.session intended.decision.action := by
  obtain ⟨past, stands, grants, entry, committed, rest⟩ := history.of_mem member
  have grows := prefix_of_append stands
  exact ⟨grants.grow grows, entry, grows.subset committed, rest⟩

/-! ### What a key names -/

theorem unused (_ : HistoryOk deployment journal) {draw : Nat} (unused : journal.unused draw = true)
    {note : Note} (member : note ∈ journal) : note.drawn ≠ some draw := by
  simpa using List.all_eq_true.mp unused note member

/-- A session identifier names one session. -/
theorem opened_unique (history : HistoryOk deployment journal) {a b : Session}
    (oa : journal.Opened a) (ob : journal.Opened b) (same : a.id = b.id) :
    a = { b with lastUsed := a.lastUsed } := by
  obtain ⟨tidA, usedA, memberA⟩ := oa
  obtain ⟨tidB, usedB, memberB⟩ := ob
  have eq := history.drawn.unique memberA memberB (k := a.id.draw) rfl (by rw [same]; rfl)
  cases a
  cases b
  simp_all

/-- A request identifier names one request. -/
theorem raised_unique (history : HistoryOk deployment journal) {tidA tidB : Nat}
    {rootA rootB : Intended} {a b : Asked} (ma : Note.raised tidA rootA a ∈ journal)
    (mb : Note.raised tidB rootB b ∈ journal) (same : a.id = b.id) :
    tidA = tidB ∧ rootA = rootB ∧ a = b := by
  have eq := history.drawn.unique ma mb (k := a.id.draw) rfl (by rw [same]; rfl)
  simpa using eq

/-- A request has one answer. -/
theorem answered_unique (history : HistoryOk deployment journal) {tidA tidB redeemA redeemB : Nat}
    {a b : Answer} (ma : Note.answered tidA a redeemA ∈ journal)
    (mb : Note.answered tidB b redeemB ∈ journal) (same : a.asked.id = b.asked.id) :
    tidA = tidB ∧ a = b ∧ redeemA = redeemB := by
  have eq := history.answered.unique ma mb (k := a.asked.id) rfl (by rw [same]; rfl)
  simpa using eq

/-- A holder's number names one holder. -/
theorem placed_unique (history : HistoryOk deployment journal) {tidA tidB holder : Nat}
    {a b : SessionId} (ma : Note.placed tidA holder a ∈ journal)
    (mb : Note.placed tidB holder b ∈ journal) : a = b := by
  have eq := history.drawn.unique ma mb (k := holder) rfl rfl
  simp only [Note.placed.injEq] at eq
  exact eq.2.2

/-- Nobody has answered or collected a request nobody has raised. -/
theorem unraised (history : HistoryOk deployment journal) {draw : Nat}
    (unused : journal.unused draw = true) {note : Note} (member : note ∈ journal) :
    note.answers ≠ some ⟨draw⟩ ∧ note.collects ≠ some ⟨draw⟩ := by
  constructor
  · intro answers
    cases note with
    | answered tid answer redeemBy =>
      obtain ⟨raiser, root, raised⟩ := history.answered_raised member
      cases answers' : answer.asked.id
      simp only [Note.answers, Option.some.injEq, answers', RequestId.mk.injEq] at answers
      exact history.unused unused raised (by simp [Note.drawn, answers', answers])
    | _ => cases answers
  · intro collects
    cases note with
    | collected tid intended grant receipt =>
      obtain ⟨grants, -⟩ := history.collected_grants member
      obtain ⟨raiser, root, answer, redeemBy, raised, -, id, -⟩ := grants.request
      simp only [Note.collects, Option.some.injEq] at collects
      exact history.unused unused raised (by simp [Note.drawn, id, collects])
    | _ => cases collects

end HistoryOk

end McpSsh.Bastion
