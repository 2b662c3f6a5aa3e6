import McpSsh.Bastion.Provenance

/-!
# What authorizes a run

A run is registered with the authorization of one entry that was in the record
before it: a decision that permitted its action, or an approval of a decision
that was held. Where local review covers the account, it is an approval.
-/

namespace McpSsh.Bastion

open History Interleaving

variable {deployment : Deployment} {journal past : Journal} {tid : Nat}
variable {intended : Intended} {receipt : Receipt} {run : Run}

/-- An entry that decided on an action, one way or the other. -/
def Entry.Decides (entry : Entry) (verdict : Verdict) (kind : ActionKind) (argv : List String) :
    Prop :=
  ∃ what, entry.event = .decided what ∧ what.verdict = verdict ∧ what.operation = kind ∧
    what.argv = argv

/-- A decision that permitted a run. -/
def Permits (entry : Entry) (run : Run) : Prop :=
  Entry.Decides entry .permit run.operation.kind run.argv

/-- An approval of a decision that was held, about the action of a run. -/
def Approves (past : Journal) (entry : Entry) (run : Run) : Prop :=
  ∃ approved decided, entry.event = .approved approved ∧ Note.committed decided ∈ past ∧
    decided.sequence = approved.decided ∧
    Entry.Decides decided .needsApproval run.operation.kind run.argv

/-- Whether local review covers an account. -/
def Reviewed (deployment : Deployment) (host : HostId) (role : RoleId) : Prop :=
  deployment.review = .all ∨ deployment.review = .privileged ∧
    ∃ target, deployment.registry.resolve host role = .ok target ∧
      target.accessClass = .privileged

/-- What a run rests on, when it is registered for a session. The vector that was
decided on is the run's own: a command's is executed, and a file operation's
spells the operation that is carried out. -/
structure Authority (deployment : Deployment) (past : Journal) (session : SessionId) (run : Run)
    (entry : Entry) : Prop where
  committed : Note.committed entry ∈ past
  names : run.authorization.sequence = entry.sequence ∧ run.authorization.digest = entry.digest
  who : run.authorization.who = entry.who
  asked : entry.who.session = session ∧ ∃ owner, past.Opened owner ∧
    owner.attribution = entry.who
  connection : entry.who.host = run.connection.host ∧ entry.who.role = run.connection.role
  displayed : ∀ argv, run.operation.displayArgv = some argv → run.argv = argv
  decided : Permits entry run ∨ Approves past entry run
  reviewed : Reviewed deployment entry.who.host entry.who.role → Approves past entry run
  upload : ∀ path source overwrite stage, run.operation = .upload path source overwrite stage →
    ∃ input, run.payload = some (.upload input) ∧ input.identity.bytes = source.bytes ∧
      input.identity.sha256 = source.sha256

/-- An account local review covers is held. -/
theorem HistoryOk.held_of_reviewed (history : HistoryOk deployment journal)
    (recorded : Note.recorded tid intended ∈ journal)
    (reviewed : Reviewed deployment intended.decision.session.host intended.decision.session.role) :
    intended.decision.verdict = .needsApproval := by
  obtain ⟨-, -, -, ⟨opener, lastUsed, opened⟩, decision, -⟩ := history.recorded recorded
  obtain ⟨before, -, -, target, resolved, sameClass⟩ := history.of_mem opened
  rw [decision, ReviewMode.decideAction_verdict, if_pos]
  rcases reviewed with all | ⟨privileged, target', resolved', isPrivileged⟩
  · simp [ReviewMode.holds, all]
  · have same : target = target' := Except.ok.inj (resolved.symm.trans resolved')
    subst same
    simp only [ReviewMode.holds, privileged, decide_eq_true_eq]
    exact sameClass.symm.trans isPrivileged

/-- A receipt for an action that was permitted at once. -/
theorem HistoryOk.minted_permitted (history : HistoryOk deployment journal)
    (recorded : Note.recorded tid intended ∈ journal) (handed : intended.receipt = some receipt) :
    Note.committed intended.entry ∈ journal ∧
      receipt = Ledger.receiptFor intended.entry intended.decision.session
        intended.decision.action ∧
      intended.entry.who = intended.decision.session.attribution ∧
      Entry.Decides intended.entry .permit receipt.action.kind receipt.action.command.argv := by
  obtain ⟨committed, event, who, -, -, permitted⟩ := history.recorded recorded
  obtain ⟨verdict, rfl⟩ := permitted receipt handed
  obtain ⟨what, whatIs, whatVerdict, whatKind, whatArgv, -⟩ :=
    decidedEvent_holds intended.decision intended.agentIntent
  exact ⟨committed, rfl, who, what, event.trans whatIs, whatVerdict.trans verdict, whatKind, whatArgv⟩

/-- A receipt that was collected. -/
theorem HistoryOk.minted_approved (history : HistoryOk deployment journal)
    (free : journal.CollisionFree deployment.format.sha256) {grant : Grant}
    (collected : Note.collected tid intended grant receipt ∈ journal) :
    ∃ entry approved decided, Note.committed entry ∈ journal ∧
      receipt = Ledger.receiptFor entry intended.decision.session intended.decision.action ∧
      entry.who = intended.decision.session.attribution ∧ entry.event = .approved approved ∧
      Note.committed decided ∈ journal ∧ decided.sequence = approved.decided ∧
      Entry.Decides decided .needsApproval receipt.action.kind receipt.action.command.argv := by
  obtain ⟨grants, entry, committed, event, who, rfl⟩ := history.collected_grants collected
  obtain ⟨raiser, root, answer, redeemBy, raised, -, -, action, -, decided, -⟩ := grants.request
  obtain ⟨decidedBy, inRecord, -, what, rootIs, verdict, kind, argv, -⟩ :=
    history.root_decides free raised grants.recorded action
  exact ⟨entry, _, root.entry, committed, rfl, who, event, inRecord,
    (decided.trans decidedBy).symm, what, rootIs, verdict, kind, argv⟩

/-- An input that belongs to an upload has the identity that was reviewed. -/
theorem Payload.suits_upload {payload : Option Payload} {action : Action}
    (fits : match payload with
      | none => action.kind = .execute
      | some payload => payload.suits action.operation = true)
    {path : RemotePath} {source : FileIdentity} {overwrite : Bool} {stage : Option RemotePath}
    (upload : action.operation = .upload path source overwrite stage) :
    ∃ input, payload = some (.upload input) ∧ input.identity.bytes = source.bytes ∧
      input.identity.sha256 = source.sha256 := by
  match payload with
  | none =>
    simp only [Action.kind, upload] at fits
    cases fits
  | some .download | some .fileInfo =>
    simp only [upload] at fits
    cases fits
  | some (.upload input) =>
    simp only [upload, Payload.suits, Bool.and_eq_true, decide_eq_true_eq] at fits
    exact ⟨input, rfl, fits.1.symm, fits.2.symm⟩

theorem wrongTarget_eq_none {connection : Connection} (same : wrongTarget receipt connection = none) :
    receipt.authorization.who.host = connection.host ∧
      receipt.authorization.who.role = connection.role := by
  unfold wrongTarget at same
  split at same
  · cases same
  · rename_i apart
    simpa only [ne_eq, not_or, not_not] using apart

/-- What a note of a registration says of the run. -/
theorem HistoryOk.registered_authority (history : HistoryOk deployment journal)
    (free : journal.CollisionFree deployment.format.sha256) {session : SessionId}
    (stands : past ++ [.registered tid session run] <+: journal) :
    ∃ entry, Authority deployment past session run entry := by
  have grows := HistoryOk.prefix_of_append stands
  have earlier := history.of_prefix grows
  have free : past.CollisionFree deployment.format.sha256 :=
    fun tid a tid' b ra rb => free tid a tid' b (grows.subset ra) (grows.subset rb)
  obtain ⟨intended, receipt, minted, about, authorization, operation, argv, -, target, fits⟩ :=
    history.warranted.of_stands stands
  obtain ⟨sameHost, sameRole⟩ := wrongTarget_eq_none target
  have displayed : ∀ shown, run.operation.displayArgv = some shown → run.argv = shown := by
    intro shown is
    rw [argv]
    exact receipt.action.displayed shown (operation ▸ is)
  have upload := fun path source overwrite stage (is : run.operation = .upload path source overwrite
    stage) => Payload.suits_upload fits (operation.symm.trans is)
  rcases minted with ⟨recorded, handed⟩ | ⟨grant, collected⟩
  · obtain ⟨committed, rfl, who, decides⟩ := earlier.minted_permitted recorded handed
    obtain ⟨-, -, -, opened, -, permitted⟩ := earlier.recorded recorded
    refine ⟨_, committed, by rw [authorization]; exact ⟨rfl, rfl⟩, by rw [authorization, who]; rfl,
      ⟨by rw [who]; exact about, _, opened, who.symm⟩, by rw [who]; exact ⟨sameHost, sameRole⟩,
      displayed, .inl ?_, fun covered => ?_, upload⟩
    · rw [Permits, operation, argv]
      exact decides
    · rw [who] at covered
      have held := earlier.held_of_reviewed recorded covered
      rw [(permitted _ handed).1] at held
      cases held
  · obtain ⟨entry, approved, decided, committed, rfl, who, event, inRecord, place, decides⟩ :=
      earlier.minted_approved free collected
    obtain ⟨grants, -⟩ := earlier.collected_grants collected
    obtain ⟨-, -, -, opened, -⟩ := earlier.recorded grants.recorded
    have approves : Approves past entry run := by
      refine ⟨approved, decided, event, inRecord, place, ?_⟩
      rw [operation, argv]
      exact decides
    exact ⟨entry, committed, by rw [authorization]; exact ⟨rfl, rfl⟩, by rw [authorization, who]; rfl,
      ⟨by rw [who]; exact about, _, opened, who.symm⟩, by rw [who]; exact ⟨sameHost, sameRole⟩,
      displayed, .inr approves, fun _ => approves, upload⟩

/-- The note of a receipt's minting, and the sequence it is kept under. -/
theorem Journal.Minted.note (history : HistoryOk deployment journal)
    (minted : journal.Minted tid intended receipt) :
    ∃ note ∈ journal, note.tid = some tid ∧ note.mints = some receipt.authorization.sequence := by
  rcases minted with ⟨recorded, handed⟩ | ⟨grant, collected⟩
  · obtain ⟨-, -, -, -, -, permitted⟩ := history.recorded recorded
    obtain ⟨-, rfl⟩ := permitted receipt handed
    exact ⟨_, recorded, rfl, rfl⟩
  · exact ⟨_, collected, rfl, rfl⟩

/-- One authorization is carried by one run. -/
theorem HistoryOk.registered_unique (history : HistoryOk deployment journal) {tidA tidB : Nat}
    {sessionA sessionB : SessionId} {a b : Run}
    (ma : Note.registered tidA sessionA a ∈ journal) (mb : Note.registered tidB sessionB b ∈ journal)
    (same : a.authorization = b.authorization) : a = b := by
  obtain ⟨pastA, standsA, intendedA, receiptA, mintedA, -, authorizationA, -⟩ := history.of_mem ma
  obtain ⟨pastB, standsB, intendedB, receiptB, mintedB, -, authorizationB, -⟩ := history.of_mem mb
  obtain ⟨noteA, insideA, callA, mintA⟩ :=
    (mintedA.grow (HistoryOk.prefix_of_append standsA)).note history
  obtain ⟨noteB, insideB, callB, mintB⟩ :=
    (mintedB.grow (HistoryOk.prefix_of_append standsB)).note history
  rw [← authorizationA, same] at mintA
  rw [← authorizationB] at mintB
  have once := history.minted.unique insideA insideB mintA mintB
  rw [once, callB] at callA
  cases callA
  have registered := history.registered.unique ma mb rfl rfl
  simp only [Note.registered.injEq] at registered
  exact registered.2.2

/-- **Effect authority.** Every run in the store was registered with the
authorization of an entry that had been committed: one of the session that
asked and of the connection the run uses, that decided on what is run, and that
is an approval where the review mode covers the account. No two runs carry one
authorization, and an upload places what was reviewed. -/
theorem effect_authority {world : World} (reached : Reachable deployment world)
    (free : world.shared.journal.CollisionFree deployment.format.sha256) :
    (∀ run ∈ world.shared.runs.runs, ∃ past tid session entry,
      past ++ [.registered tid session run] <+: world.shared.journal ∧
        Authority deployment past session run entry) ∧
    (world.shared.runs.runs.map (·.authorization)).Nodup := by
  constructor
  · intro run member
    obtain ⟨tid, session, registered⟩ := reached.inv.runs.registered run member
    obtain ⟨past, stands, -⟩ := reached.history.of_mem registered
    obtain ⟨entry, authority⟩ := reached.history.registered_authority free stands
    exact ⟨past, tid, session, entry, stands, authority⟩
  · refine (List.nodup_map_iff_inj_on (List.Nodup.of_map _ reached.inv.runs.ids)).mpr ?_
    intro a ma b mb same
    obtain ⟨tidA, sessionA, registeredA⟩ := reached.inv.runs.registered a ma
    obtain ⟨tidB, sessionB, registeredB⟩ := reached.inv.runs.registered b mb
    exact reached.history.registered_unique registeredA registeredB same

/-- The sample's run is authorized. -/
theorem effect_authority_approval :
    ∃ run ∈ (Sample.run Sample.approval).shared.runs.runs, ∃ past tid session entry,
      past ++ [.registered tid session run] <+: (Sample.run Sample.approval).shared.journal ∧
        Authority Sample.reviewed past session run entry := by
  obtain ⟨run, member⟩ : ∃ run, run ∈ (Sample.run Sample.approval).shared.runs.runs := by
    refine List.exists_mem_of_ne_nil _ (fun empty => ?_)
    have one : (Sample.run Sample.approval).shared.runs.runs.length = 1 := by decide +kernel
    rw [empty] at one
    cases one
  exact ⟨run, member, (effect_authority (Sample.run_reachable Sample.approval)
    (.of_injective (fun _ _ same => congrArg Digest.bytes same) _)).1 run member⟩

end McpSsh.Bastion
